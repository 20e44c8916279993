import Bindery.Proofs.ConstantEvaluation
import Bindery.Proofs.Contracts

/-! # Requests for constants

A request explores what a constant needs, puts it in order and computes it.  For constants of
integer arithmetic, `Program.Verdict` says what has to come out.

* Each constant that is computed gets its verdict (`Findings.Reckoned`).  An order puts a constant
  after what it needs, or marks it, and a marked constant lies on a cycle.
* So any sequence of requests leaves every published constant with its verdict.  A verdict fixes the
  value, and off cycles the diagnostics as well. -/

namespace Bindery

variable {p : Program}

/-! ### Verdicts -/

namespace Program

variable (p)

/-- What comes of a constant: the number it denotes; nothing new where something it needs has no
number; else a report that it has none.  On a cycle it may be reported as circular. -/
inductive Verdict (field : SymbolId) : Evaluated FieldConstant → Prop
  | number (h : p.Denotes field n) : Verdict field ⟨.value (.value (.int n)), {}⟩
  | tainted (hneeds : p.Needs field other) (hother : ∀ n, ¬p.Denotes other n) : Verdict field ⟨.bad, {}⟩
  | undefined (hfield : ∀ n, ¬p.Denotes field n)
      (hneeds : ∀ other, p.Needs field other → ∃ n, p.Denotes other n)
      (hd : p.notConstantDiagnostic field = .ok d) : Verdict field ⟨.bad, ⟨[d]⟩⟩
  | circular (hcycle : Relation.TransGen p.Needs field field) (hd : p.circularDiagnostic field = .ok d) :
      Verdict field ⟨.bad, ⟨[d]⟩⟩

variable {p}

namespace Verdict

variable {field : SymbolId} {known known' : Evaluated FieldConstant} {n : Int}

theorem eq_of_denotes (h : p.Verdict field known) (hn : p.Denotes field n) :
    known = ⟨.value (.value (.int n)), {}⟩ := by
  cases h with
  | number hm => rw [hm.unique hn]
  | tainted hneeds hother =>
    obtain ⟨k, hk⟩ := hn.of_needs hneeds
    exact absurd hk (hother k)
  | undefined hfield => exact absurd hn (hfield n)
  | circular hcycle => exact absurd hcycle hn.not_onCycle

theorem value_eq_bad (h : p.Verdict field known) (hfield : ∀ n, ¬p.Denotes field n) :
    known.value = .bad := by
  cases h with
  | number hn => exact absurd hn (hfield _)
  | _ => rfl

theorem value_eq_int_iff (h : p.Verdict field known) :
    known.value = .value (.value (.int n)) ↔ p.Denotes field n := by
  constructor
  · intro hvalue
    cases h with
    | number hm =>
      obtain rfl : _ = n := by simpa using hvalue
      exact hm
    | _ => simp at hvalue
  · intro hn
    rw [h.eq_of_denotes hn]

/-- The value is fixed. -/
theorem value_unique (h : p.Verdict field known) (h' : p.Verdict field known') :
    known.value = known'.value := by
  by_cases hdenotes : ∃ n, p.Denotes field n
  · obtain ⟨n, hn⟩ := hdenotes
    rw [h.eq_of_denotes hn, h'.eq_of_denotes hn]
  · have hnone : ∀ n, ¬p.Denotes field n := fun n hn => hdenotes ⟨n, hn⟩
    rw [h.value_eq_bad hnone, h'.value_eq_bad hnone]

/-- Off cycles, so are the diagnostics. -/
theorem unique (h : p.Verdict field known) (h' : p.Verdict field known')
    (hcycle : ¬Relation.TransGen p.Needs field field) : known = known' := by
  cases h with
  | number hn => exact (h'.eq_of_denotes hn).symm
  | tainted hneeds hother =>
    cases h' with
    | number hn =>
      obtain ⟨k, hk⟩ := hn.of_needs hneeds
      exact absurd hk (hother k)
    | tainted => rfl
    | undefined _ hneeds' =>
      obtain ⟨k, hk⟩ := hneeds' _ hneeds
      exact absurd hk (hother k)
    | circular hcycle' => exact absurd hcycle' hcycle
  | undefined hfield hneeds hd =>
    cases h' with
    | number hn => exact absurd hn (hfield _)
    | tainted hneeds' hother =>
      obtain ⟨k, hk⟩ := hneeds _ hneeds'
      exact absurd hk (hother k)
    | undefined _ _ hd' => rw [ok_unique hd hd']
    | circular hcycle' => exact absurd hcycle' hcycle
  | circular hcycle' => exact absurd hcycle' hcycle

end Verdict

/-- Every constant that is needed is one of integer arithmetic. -/
theorem IntegerConstants.of_needs (hconstants : p.IntegerConstants) {field other : SymbolId}
    (h : p.Needs field other) : ∃ term, p.DefinesTerm other term := by
  obtain ⟨term, ⟨-, -, -, -, -, -, hspells⟩, hother⟩ := h
  refine hconstants other ?_
  induction hspells with
  | literal => simp [IntTerm.constants] at hother
  | constant _ _ _ hconstant =>
    obtain rfl : other = _ := by simpa [IntTerm.constants] using hother
    exact hconstant
  | plus _ _ ih => exact ih hother
  | negate _ _ ih => exact ih hother
  | binary _ _ _ ihl ihr =>
    rcases List.mem_append.1 hother with hother | hother
    · exact ihl hother
    · exact ihr hother

theorem DefinesTerm.lt {field : Nat} {term : IntTerm} (h : p.DefinesTerm field term) :
    field < p.symbols.size := by
  obtain ⟨hfield, -, -, -, -, -, -⟩ := h
  obtain ⟨s, hs, -⟩ := exists_of_field? hfield
  exact SymbolTable.lt_of_getElem? hs

end Program

/-! ### Findings with verdicts -/

/-- Every published constant has its verdict. -/
structure Findings.Reckoned (p : Program) (f : Findings) : Prop where
  integral : f.Integral p
  verdict : ∀ {field : SymbolId} {known : Evaluated FieldConstant},
    f.constants.get? field = some known → p.Verdict field known

theorem Findings.Reckoned.empty : Findings.Reckoned p {} :=
  ⟨⟨Program.cacheSound_empty, fun _ h => by simp at h, fun h => by simp at h⟩, fun h => by simp at h⟩

def Findings.IsPublished (f : Findings) (field : SymbolId) : Prop :=
  ∃ known, f.constants.get? field = some known

namespace Findings.Reckoned

variable {f : Findings} (h : f.Reckoned p) {field : SymbolId} {term : IntTerm}
include h

variable {evaluated : Evaluated FieldConstant}

theorem publish (hverdict : p.Verdict field evaluated) :
    Findings.Reckoned p { f with constants := f.constants.publish field evaluated } := by
  refine ⟨⟨h.integral.regions, h.integral.fieldTypes, fun hknown => ?_⟩, fun hknown => ?_⟩
  · rcases Registry.of_get?_publish hknown with hold | ⟨rfl, rfl⟩
    · exact h.integral.constants hold
    · cases hverdict with
      | number hn => exact .inr ⟨_, rfl, hn.fits⟩
      | _ => exact .inl rfl
  · rcases Registry.of_get?_publish hknown with hold | ⟨rfl, rfl⟩
    · exact h.verdict hold
    · exact hverdict

theorem of_constants_eq {g : Findings} (hg : g.Integral p) (hsame : g.constants = f.constants) :
    g.Reckoned p := ⟨hg, fun hknown => h.verdict (hsame ▸ hknown)⟩

theorem number?_iff (hpublished : f.IsPublished field) (n : Int) :
    f.number? field = some n ↔ p.Denotes field n := by
  obtain ⟨known, hknown⟩ := hpublished
  have hverdict := h.verdict hknown
  rw [← hverdict.value_eq_int_iff]
  unfold Findings.number?
  rw [hknown]
  obtain ⟨value, diagnostics⟩ := known
  constructor
  · intro hn
    split at hn
    · next heq =>
      obtain rfl := Option.some.inj hn
      simpa using congrArg (Option.map (·.value)) heq
    · simp at hn
  · rintro rfl
    rfl

/-- A constant that is computed after everything it names gets its verdict. -/
theorem verdict_of_computes (hdefines : p.DefinesTerm field term)
    (hall : ∀ other ∈ term.constants, f.IsPublished other)
    (hcomputes : p.Computes field term f.number? false evaluated) : p.Verdict field evaluated := by
  have hvalue : ∀ other ∈ term.constants, ∀ k, f.number? other = some k ↔ p.Denotes other k :=
    fun other hother => h.number?_iff (hall other hother)
  cases hcomputes with
  | number heval => exact .number ((p.denotes_iff hdefines hvalue).2 heval)
  | tainted hother hnone =>
    refine .tainted ⟨term, hdefines, hother⟩ fun n hn => ?_
    rw [(hvalue _ hother n).2 hn] at hnone
    cases hnone
  | undefined heval hnumbers hd =>
    refine .undefined (fun n hn => ?_) (fun other hneeds => ?_) hd
    · rw [(p.denotes_iff hdefines hvalue).1 hn] at heval
      cases heval
    · obtain ⟨term', hdefines', hother⟩ := hneeds
      obtain rfl := hdefines.unique hdefines'
      obtain ⟨n, hn⟩ := hnumbers other hother
      exact ⟨n, (hvalue other hother n).1 hn⟩

end Findings.Reckoned

/-! ### Exploring -/

theorem Findings.IsPublished.mono {f g : Findings} (hgrows : f.constants.Grows g.constants)
    {field : SymbolId} (h : f.IsPublished field) : g.IsPublished field := by
  obtain ⟨known, hknown⟩ := h
  exact ⟨known, hgrows hknown⟩

/-- The graph says of its fields what they need, except for what is published. -/
structure DependencyGraph.Charts (p : Program) (f : Findings) (g : DependencyGraph) : Prop where
  defines : ∀ field ∈ g.keys, ∃ term, p.DefinesTerm field term
  needs : ∀ {a b : SymbolId}, g.DependsOn a b → p.Needs a b
  covers : ∀ a ∈ g.keys, f.IsPublished a ∨ ∀ b, p.Needs a b → g.DependsOn a b ∨ f.IsPublished b

namespace DependencyGraph.Charts

variable {f f' : Findings} {g : DependencyGraph} {field : SymbolId} {list : List SymbolId}

theorem empty : Charts p f {} where
  defines := by simp [keys]
  needs := by simp [DependsOn, dependencies]
  covers := by simp [keys]

theorem insert (h : g.Charts p f) (hgrows : f.constants.Grows f'.constants) (hfield : field ∉ g.keys)
    (hdefines : ∃ term, p.DefinesTerm field term) (hneeds : ∀ d ∈ list, p.Needs field d)
    (hcovers : f'.IsPublished field ∨ ∀ d, p.Needs field d → d ∈ list ∨ f'.IsPublished d) :
    (g.insert field list).Charts p f' where
  defines := by
    intro a ha
    rw [Explored.keys_insert] at ha
    rcases List.mem_append.1 ha with ha | ha
    · exact h.defines a ha
    · obtain rfl := List.mem_singleton.1 ha
      exact hdefines
  needs := by
    intro a b hab
    unfold DependsOn at hab
    rw [Explored.dependencies_insert hfield] at hab
    split at hab
    · next heq => exact heq ▸ hneeds b hab
    · exact h.needs hab
  covers := by
    intro a ha
    unfold DependsOn
    rw [Explored.keys_insert] at ha
    rw [Explored.dependencies_insert hfield]
    split
    · next heq => exact heq ▸ hcovers
    · next hne =>
      have ha : a ∈ g.keys := by simpa [hne] using ha
      refine (h.covers a ha).imp (·.mono hgrows) fun hall b hab => ?_
      exact (hall b hab).imp_right (·.mono hgrows)

end DependencyGraph.Charts

namespace Program.Formed

variable (formed : p.Formed) {ask : Asker} (asker : IntegerAsker p ask)
  (hconstants : p.IntegerConstants) {field : Nat} {term : IntTerm}
include formed asker hconstants

variable {s : BindState}

theorem dependenciesOf_spec (hdefines : p.DefinesTerm field term) (hs : s.findings.Reckoned p) :
    Succeeds (p.dependenciesOf ask field) s fun list s' => s'.findings.Reckoned p ∧
      s.findings.constants.Grows s'.findings.constants ∧ (∀ d ∈ list, p.Needs field d) ∧
      (s'.findings.IsPublished field ∨
        ∀ d, p.Needs field d → d ∈ list ∨ s'.findings.IsPublished d) := by
  refine Ends.bind_get ?_
  split
  · next hcontains =>
    refine Ends.pure ⟨hs, id, by simp, .inl ?_⟩
    exact Option.isSome_iff_exists.1 hcontains
  · refine Ends.bind (formed.evaluateConstant_spec asker hconstants hdefines false hs.integral) ?_
    rintro ⟨evaluated, list⟩ s' ⟨hs', hsame, hmem, hcomputes⟩
    have hneeds : ∀ d ∈ list, p.Needs field d := fun d hd => ⟨term, hdefines, ((hmem d).1 hd).1⟩
    have hcovers : ∀ d ∈ term.constants, d ∈ list ∨ s.findings.IsPublished d := by
      intro d hd
      cases hget : s.findings.constants.get? d with
      | none => exact .inl ((hmem d).2 ⟨hd, hget⟩)
      | some known => exact .inr ⟨known, hget⟩
    have hreckoned := hs.of_constants_eq hs' hsame
    have hgrows : s.findings.constants.Grows s'.findings.constants := by
      rw [hsame]
      exact id
    dsimp only
    split
    · next hempty =>
      obtain rfl := List.isEmpty_iff.1 hempty
      have hverdict := hs.verdict_of_computes hdefines
        (fun d hd => (hcovers d hd).resolve_left (by simp)) hcomputes
      obtain ⟨known, hknown, -⟩ := s'.findings.constants.get?_publish_cases field evaluated
      exact Ends.bind_modify (Ends.pure ⟨hreckoned.publish hverdict,
        fun hk => Registry.grows_publish _ _ _ (hgrows hk), hneeds, .inl ⟨known, hknown⟩⟩)
    · refine Ends.pure ⟨hreckoned, hgrows, hneeds, .inr ?_⟩
      rintro d ⟨term', hdefines', hd⟩
      obtain rfl := hdefines.unique hdefines'
      exact (hcovers d hd).imp_right (·.mono hgrows)

variable {g : DependencyGraph}

theorem explore_spec {budget : Nat} {pending : List SymbolId}
    (hs : s.findings.Reckoned p) (hg : g.Charts p s.findings) (h : Explored p g pending)
    (hpending : ∀ field ∈ pending, ∃ term, p.DefinesTerm field term)
    (hbudget : p.symbols.size < budget + g.keys.length) :
    Succeeds (p.explore ask budget pending g) s fun found s' => s'.findings.Reckoned p ∧
      s.findings.constants.Grows s'.findings.constants ∧ found.Charts p s'.findings ∧
      Explored p found [] ∧ g.keys ++ pending ⊆ found.keys := by
  fun_induction explore p ask budget pending g generalizing s with
  | case1 graph => exact Ends.pure ⟨hs, id, hg, h, by simp⟩
  | case2 graph budget field rest hcontains ih =>
    have hfield : field ∈ graph.keys := List.contains_iff_mem.1 hcontains
    refine Ends.imp (ih hs hg (h.skip hfield) (fun other hother =>
      hpending other (List.mem_cons_of_mem _ hother)) hbudget) ?_
    rintro found s' ⟨hs', hgrows, hcharts, hfound, hkeys⟩
    exact ⟨hs', hgrows, hcharts, hfound, by grind⟩
  | case3 graph field rest hcontains =>
    have hfield : field ∉ graph.keys := fun hmem => hcontains (List.contains_iff_mem.2 hmem)
    have := h.length_lt hfield
    omega
  | case4 graph field rest hcontains budget ih =>
    have hfield : field ∉ graph.keys := fun hmem => hcontains (List.contains_iff_mem.2 hmem)
    obtain ⟨term, hdefines⟩ := hpending field List.mem_cons_self
    refine Ends.bind (formed.dependenciesOf_spec asker hconstants hdefines hs) ?_
    rintro list s' ⟨hs', hgrows, hneeds, hcovers⟩
    have hlist : ∀ d ∈ list, ∃ term, p.DefinesTerm d term :=
      fun d hd => hconstants.of_needs (hneeds d hd)
    refine Ends.imp (ih list hs' (hg.insert hgrows hfield ⟨term, hdefines⟩ hneeds hcovers)
      (h.insert hfield fun d hd => ?_) ?_ ?_) ?_
    · obtain ⟨term, hd⟩ := hlist d hd
      exact hd.lt
    · intro other hother
      rcases List.mem_append.1 hother with hother | hother
      · exact hlist other (List.mem_reverse.1 hother)
      · exact hpending other (List.mem_cons_of_mem _ hother)
    · rw [Explored.keys_insert, List.length_append, List.length_singleton]
      omega
    · rintro found s'' ⟨hs'', hgrows', hcharts, hfound, hkeys⟩
      exact ⟨hs'', fun hk => hgrows' (hgrows hk), hcharts, hfound, Explored.subset_of_insert hkeys⟩

/-- Taking a field from an order. -/
theorem takeConstant_spec (hdefines : p.DefinesTerm field term) {startsCycle : Bool}
    (hs : s.findings.Reckoned p) (hready : startsCycle = false → s.findings.IsPublished field ∨
      ∀ d, p.Needs field d → s.findings.IsPublished d)
    (hcycle : startsCycle = true → Relation.TransGen p.Needs field field) :
    Succeeds (p.takeConstant ask field startsCycle) s fun _ s' => s'.findings.Reckoned p ∧
      s.findings.constants.Grows s'.findings.constants ∧ s'.findings.IsPublished field := by
  refine Ends.bind_get ?_
  split
  · next hcontains =>
    have hunpublished : ¬s.findings.IsPublished field := by
      rintro ⟨known, hknown⟩
      simp [Registry.contains, hknown] at hcontains
    refine Ends.bind (formed.evaluateConstant_spec asker hconstants hdefines startsCycle hs.integral) ?_
    rintro ⟨evaluated, list⟩ s' ⟨hs', hsame, -, hcomputes⟩
    have hverdict : p.Verdict field evaluated := by
      cases startsCycle with
      | false =>
        have hneeds := (hready rfl).resolve_left hunpublished
        exact hs.verdict_of_computes hdefines (fun d hd => hneeds d ⟨term, hdefines, hd⟩) hcomputes
      | true =>
        cases hcomputes with
        | circular hd => exact .circular (hcycle rfl) hd
    obtain ⟨known, hknown, -⟩ := s'.findings.constants.get?_publish_cases field evaluated
    refine Ends.of_modify ⟨(hs.of_constants_eq hs' hsame).publish hverdict, ?_, known, hknown⟩
    rw [← hsame]
    exact Registry.grows_publish _ _ _
  · next hcontains =>
    refine Ends.pure ⟨hs, id, ?_⟩
    exact Option.ne_none_iff_exists'.1 (by simpa [Registry.contains] using hcontains)

/-- Taking all fields in order. What is already taken is published. -/
theorem takeConstants_spec {order : List (SymbolId × Bool)}
    (htaken : g.Taken order) (hs : s.findings.Reckoned p) (hcharts : g.Charts p s.findings) :
    Succeeds (order.forM fun (field, startsCycle) => p.takeConstant ask field startsCycle) s
      fun _ s' => s'.findings.Reckoned p ∧
      s.findings.constants.Grows s'.findings.constants ∧
      ∀ entry ∈ order, s'.findings.IsPublished entry.1 := by
  refine Ends.imp (Ends.forM (I := fun rest s' => s'.findings.Reckoned p ∧
    s.findings.constants.Grows s'.findings.constants ∧ ∃ before, order = before ++ rest ∧
      ∀ entry ∈ before, s'.findings.IsPublished entry.1) ⟨hs, id, [], rfl, by simp⟩ ?_) ?_
  · rintro ⟨field, startsCycle⟩ rest s₁ ⟨hs₁, hgrows, before, rfl, hbefore⟩
    have hkey := htaken.mem_keys (field, startsCycle) (by simp)
    obtain ⟨term, hdefines⟩ := hcharts.defines field hkey
    refine Ends.imp (formed.takeConstant_spec asker hconstants hdefines hs₁ ?_ ?_) ?_
    · rintro rfl
      refine (hcharts.covers field hkey).imp (·.mono hgrows) fun hcovers d hd => ?_
      rcases hcovers d hd with hdepends | hpublished
      · obtain ⟨entry, hentry, rfl⟩ := List.mem_map.1 (htaken.after rfl d hdepends)
        exact hbefore entry hentry
      · exact hpublished.mono hgrows
    · rintro rfl
      have hcycle : Relation.TransGen g.DependsOn field field := htaken.cyclic (by simp)
      exact hcycle.lift id fun _ _ hab => hcharts.needs hab
    · rintro - s₂ ⟨hs₂, hgrows', hfield⟩
      refine ⟨hs₂, fun hk => hgrows' (hgrows hk), before ++ [(field, startsCycle)], by simp, ?_⟩
      intro entry hentry
      rcases List.mem_append.1 hentry with hentry | hentry
      · exact (hbefore entry hentry).mono hgrows'
      · obtain rfl := List.mem_singleton.1 hentry
        exact hfield
  · rintro - s' ⟨hs', hgrows, before, rfl, hbefore⟩
    rw [List.append_nil]
    exact ⟨hs', hgrows, hbefore⟩

theorem fieldConstant_spec (hdefines : p.DefinesTerm field term) (hs : s.findings.Reckoned p) :
    Succeeds (p.fieldConstant ask field none) s fun found s' => s'.findings.Reckoned p ∧
      s.findings.constants.Grows s'.findings.constants ∧
      ∃ known, found = some known ∧ s'.findings.constants.get? field = some known := by
  refine Ends.bind_get ?_
  cases hget : s.findings.constants.get? field with
  | some known => exact Ends.pure ⟨hs, id, known, rfl, hget⟩
  | none =>
    refine Ends.bind (formed.explore_spec asker hconstants hs .empty (Explored.start hdefines.lt)
      (by simpa using ⟨term, hdefines⟩) (by omega)) ?_
    rintro graph s₁ ⟨hs₁, hgrows, hcharts, hgraph, hmem⟩
    obtain ⟨order, horder, htaken, hperm⟩ := DependencyGraph.order_spec hgraph.closed
    refine Ends.bind_lift ⟨order, horder, rfl⟩ ?_
    rintro _ rfl
    refine Ends.bind (formed.takeConstants_spec asker hconstants htaken hs₁ hcharts) ?_
    rintro - s₂ ⟨hs₂, hgrows', hpublished⟩
    obtain ⟨entry, hentry, rfl⟩ := List.mem_map.1 (hperm.mem_iff.2
      (hmem (List.mem_append_right _ List.mem_cons_self)))
    obtain ⟨known, hknown⟩ := hpublished entry hentry
    exact Ends.bind_get (Ends.pure ⟨hs₂, fun hk => hgrows' (hgrows hk), known, hknown, hknown⟩)

omit asker in
/-- A request from outside any computation is answered, and everything published has its verdict. -/
theorem fieldConstantOf_spec (deep : p.symbols.size < p.requestDepth)
    (hdefines : p.DefinesTerm field term) (hs : s.findings.Reckoned p) :
    Succeeds (p.fieldConstantOf field none) s fun found s' => s'.findings.Reckoned p ∧
      s.findings.constants.Grows s'.findings.constants ∧
      ∃ known, found = some known ∧ s'.findings.constants.get? field = some known := by
  obtain ⟨depth, hdepth⟩ : ∃ depth, p.requestDepth = depth + 2 := by
    have hlt := hdefines.lt
    exact ⟨p.requestDepth - 2, by omega⟩
  unfold fieldConstantOf answer
  rw [hdepth]
  exact formed.fieldConstant_spec (formed.integerAsker _) hconstants hdefines hs

end Program.Formed

/-! ### Sequences of requests -/

/-- Ask for constants one after the other, each from outside any computation. -/
def Program.requestConstants (p : Program) (fields : List SymbolId) : BindM Unit :=
  fields.forM fun field => do discard (p.fieldConstantOf field none)

theorem Program.Formed.requestConstants_spec (formed : p.Formed) (hconstants : p.IntegerConstants)
    (deep : p.symbols.size < p.requestDepth) {fields : List SymbolId}
    (hfields : fields ⊆ p.symbols.constantFields) :
    Succeeds (p.requestConstants fields) {} fun _ s => s.findings.Reckoned p ∧
      ∀ field ∈ fields, s.findings.IsPublished field := by
  refine Ends.imp (Ends.forM (I := fun rest s => s.findings.Reckoned p ∧
    ∃ before, fields = before ++ rest ∧ ∀ field ∈ before, s.findings.IsPublished field)
    ⟨.empty, [], rfl, by simp⟩ ?_) ?_
  · rintro field rest s ⟨hs, before, rfl, hbefore⟩
    obtain ⟨term, hdefines⟩ := hconstants field (hfields (by simp))
    refine Ends.map (Ends.imp (formed.fieldConstantOf_spec hconstants deep hdefines hs) ?_)
    rintro - s' ⟨hs', hgrows, known, -, hknown⟩
    refine ⟨hs', before ++ [field], by simp, fun other hother => ?_⟩
    rcases List.mem_append.1 hother with hother | hother
    · exact (hbefore other hother).mono hgrows
    · obtain rfl := List.mem_singleton.1 hother
      exact ⟨known, hknown⟩
  · rintro - s ⟨hs, before, rfl, hbefore⟩
    rw [List.append_nil]
    exact ⟨hs, hbefore⟩

namespace Compilation

variable {d : Document} {tree : Tree} {options : Options} {c : Compilation}

/-- The document was accepted and its symbols were declared; its constants are those of integer
arithmetic. -/
structure Arithmetical (d : Document) (options : Options) (c : Compilation) : Prop where
  accepted : Tree.ofDocument d = .ok c.program.tree
  declared : declare c.program.tree options = .ok c
  constants : c.program.IntegerConstants

theorem Arithmetical.formed (h : Arithmetical d options c) : c.program.Formed :=
  (declare_formed h.accepted h.declared).2

theorem Arithmetical.deep (h : Arithmetical d options c) :
    c.program.symbols.size < c.program.requestDepth := size_lt_requestDepth h.declared

/-- The constant fields, if they are all of integer arithmetic. -/
def arithmeticalFields? (c : Compilation) : Option (List SymbolId) :=
  let fields := c.program.symbols.constantFields
  if fields.all fun field => (c.program.defined? field).isSome then some fields else none

theorem exists_arithmetical {fields : List SymbolId}
    (h : observe arithmeticalFields? d options = some (some fields)) :
    ∃ c, Arithmetical d options c ∧ c.program.symbols.constantFields = fields := by
  obtain ⟨c, htree, hc, h⟩ := exists_of_observe _ h
  obtain ⟨hall, h⟩ := Option.ite_none_right_eq_some.1 h
  exact ⟨c, ⟨htree, hc, Program.integerConstants_of_all hall⟩, Option.some.inj h⟩

/-- Constants `a = b % c`, `b = -7 * c`, `c = 2`, and a cycle of `d = e` and `e = d / a`. -/
def remainderDocument : Document := ⟨"remainder", [
  .typeName "int" [] false, .identifier "b", .identifier "c", .binary .modulo 1 2,
  .fieldDeclaration "a" .isConst (some 0) (some 3),
  .typeName "int" [] false, .literal (.int 7), .unary .negate 6, .identifier "c",
  .binary .multiply 7 8, .fieldDeclaration "b" .isConst (some 5) (some 9),
  .typeName "int" [] false, .literal (.int 2), .fieldDeclaration "c" .isConst (some 11) (some 12),
  .typeName "int" [] false, .identifier "e", .fieldDeclaration "d" .isConst (some 14) (some 15),
  .typeName "int" [] false, .identifier "d", .identifier "a", .binary .divide 18 19,
  .fieldDeclaration "e" .isConst (some 17) (some 20), .compilationUnit [4, 10, 13, 16, 21]]⟩

theorem exists_remainder : ∃ c, Arithmetical remainderDocument {} c ∧
    c.program.symbols.constantFields = [1, 2, 3, 4, 5] :=
  exists_arithmetical (by decide +kernel)

/-- However often and in whatever order constants are asked for, each that is published is the
number that computing it recursively gives, and is bad if there is none. -/
theorem constants_refine_evaluation (h : Arithmetical d options c) {fields : List SymbolId}
    (hfields : fields ⊆ c.program.symbols.constantFields) :
    ∃ s, (c.program.requestConstants fields).run {} = .ok () s ∧
      (∀ field ∈ fields, s.findings.IsPublished field) ∧
      ∀ field known, s.findings.constants.get? field = some known →
        (∀ n, known.value = .value (.value (.int n)) ↔
          c.program.Acyclic field ∧ c.program.Denotes field n) ∧
        ((¬∃ n, c.program.Acyclic field ∧ c.program.Denotes field n) → known.value = .bad) := by
  obtain ⟨_, s, hrun, hs, hpublished⟩ :=
    (h.formed.requestConstants_spec h.constants h.deep hfields).exists_ok
  refine ⟨s, hrun, hpublished, fun field known hknown => ?_⟩
  have hverdict := hs.verdict hknown
  refine ⟨fun n => ?_, fun hnone => hverdict.value_eq_bad fun n hn => hnone ⟨n, hn.acyclic, hn⟩⟩
  rw [hverdict.value_eq_int_iff]
  exact ⟨fun hn => ⟨hn.acyclic, hn⟩, And.right⟩

theorem constants_refine_evaluation_remainder : ∃ c, Arithmetical remainderDocument {} c ∧
    ∃ s, (c.program.requestConstants [4, 5, 1]).run {} = .ok () s ∧
      ∀ field ∈ [5, 1], ∃ known, s.findings.constants.get? field = some known ∧
        (∀ n, known.value = .value (.value (.int n)) ↔
          c.program.Acyclic field ∧ c.program.Denotes field n) ∧
        ((¬∃ n, c.program.Acyclic field ∧ c.program.Denotes field n) → known.value = .bad) := by
  obtain ⟨c, h, hfields⟩ := exists_remainder
  have hsubset : [4, 5, 1] ⊆ c.program.symbols.constantFields := by
    rw [hfields]
    decide
  obtain ⟨s, hrun, hpublished, hvalue⟩ := constants_refine_evaluation h hsubset
  refine ⟨c, h, s, hrun, fun field hfield => ?_⟩
  obtain ⟨known, hknown⟩ := hpublished field (List.mem_of_mem_tail hfield)
  exact ⟨known, hknown, hvalue field known hknown⟩

/-- Where all constants are those of integer arithmetic, the value of a constant does not depend on
the order of requests, and off cycles neither do its diagnostics. -/
theorem constants_independent_of_order (h : Arithmetical d options c) {fields fields' : List SymbolId}
    (hfields : fields ⊆ c.program.symbols.constantFields)
    (hall : c.program.symbols.constantFields ⊆ fields)
    (hfields' : fields' ⊆ c.program.symbols.constantFields)
    (hall' : c.program.symbols.constantFields ⊆ fields') :
    ∃ s s', (c.program.requestConstants fields).run {} = .ok () s ∧
      (c.program.requestConstants fields').run {} = .ok () s' ∧
      ∀ field ∈ c.program.symbols.constantFields, ∃ known known',
        s.findings.constants.get? field = some known ∧
        s'.findings.constants.get? field = some known' ∧ known.value = known'.value ∧
        (¬Relation.TransGen c.program.Needs field field → known = known') := by
  obtain ⟨_, s, hrun, hs, hpublished⟩ :=
    (h.formed.requestConstants_spec h.constants h.deep hfields).exists_ok
  obtain ⟨_, s', hrun', hs', hpublished'⟩ :=
    (h.formed.requestConstants_spec h.constants h.deep hfields').exists_ok
  refine ⟨s, s', hrun, hrun', fun field hfield => ?_⟩
  obtain ⟨known, hknown⟩ := hpublished field (hall hfield)
  obtain ⟨known', hknown'⟩ := hpublished' field (hall' hfield)
  have hverdict := hs.verdict hknown
  have hverdict' := hs'.verdict hknown'
  exact ⟨known, known', hknown, hknown', hverdict.value_unique hverdict', hverdict.unique hverdict'⟩

theorem constants_independent_of_order_remainder : ∃ c, Arithmetical remainderDocument {} c ∧
    ∃ s s', (c.program.requestConstants [1, 2, 3, 4, 5]).run {} = .ok () s ∧
      (c.program.requestConstants [5, 3, 1, 4, 2, 1]).run {} = .ok () s' ∧
      ∀ field ∈ [1, 2, 3, 4, 5], ∃ known known',
        s.findings.constants.get? field = some known ∧
        s'.findings.constants.get? field = some known' ∧ known.value = known'.value ∧
        (¬Relation.TransGen c.program.Needs field field → known = known') := by
  obtain ⟨c, h, hfields⟩ := exists_remainder
  refine ⟨c, h, ?_⟩
  rw [← hfields]
  exact constants_independent_of_order h (List.Subset.refl _) (List.Subset.refl _)
    (by rw [hfields]; decide) (by rw [hfields]; decide)

end Compilation
end Bindery
