import Bindery.Binding.Basic
import Bindery.Proofs.RegionChains

/-! # Steps of binding

A computation of binding does three things: it gives a value, it lets the findings grow, and it
leaves a trace in the pass it runs in.  `Steps I m K R` says all of it at once, for every state
whose findings satisfy the invariant `I`:

* `m` ends, or the requests do not come to an end; nothing else goes wrong;
* the invariant holds again, and nothing published is lost (`Findings.Grows`);
* the value satisfies `K`, and `R F` relates it and the trace for all findings `F` that the new ones
  may still grow into.  So a rule about published facts may be read in the findings at the very end.

The lemmas follow the shape of `do` blocks. -/

namespace Bindery

/-! ### Growing findings -/

namespace Registry

variable {κ α : Type} [DecidableEq κ] {r : Registry κ α}

/-- Nothing that is published is lost or replaced. -/
def Grows (r r' : Registry κ α) : Prop :=
  ∀ {key : κ} {a : α}, r.get? key = some a → r'.get? key = some a

theorem grows_publish (r : Registry κ α) (key : κ) (a : α) : r.Grows (r.publish key a) :=
  fun h => get?_publish_of_get? a h

/-- What stands under a key after publishing there: what stood there before, or the new value. -/
theorem get?_publish_cases (r : Registry κ α) (key : κ) (a : α) :
    ∃ b, (r.publish key a).get? key = some b ∧ (r.get? key = some b ∨ r.get? key = none ∧ b = a) := by
  cases h : r.get? key with
  | none => exact ⟨a, get?_publish_self a h, .inr ⟨rfl, rfl⟩⟩
  | some b => exact ⟨b, get?_publish_of_get? a h, .inl rfl⟩

/-- What is published after publishing one more value. -/
theorem of_get?_publish {key other : κ} {a b : α} (h : (r.publish key a).get? other = some b) :
    r.get? other = some b ∨ other = key ∧ b = a := by
  by_cases hkey : other = key
  · subst hkey
    obtain ⟨c, hc, hcases⟩ := r.get?_publish_cases other a
    obtain rfl := Option.mem_unique hc h
    rcases hcases with hold | ⟨-, rfl⟩
    · exact .inl hold
    · exact .inr ⟨rfl, rfl⟩
  · rw [get?_publish_of_ne a hkey] at h
    exact .inl h

end Registry

/-- Everything published stays. -/
structure Findings.Grows (f g : Findings) : Prop where
  constants : f.constants.Grows g.constants
  fieldTypes : f.fieldTypes.Grows g.fieldTypes
  signatures : f.signatures.Grows g.signatures
  defaults : f.defaults.Grows g.defaults
  localTypes : f.localTypes.Grows g.localTypes
  localConstants : f.localConstants.Grows g.localConstants
  functionSignatures : f.functionSignatures.Grows g.functionSignatures
  functionDefaults : f.functionDefaults.Grows g.functionDefaults

namespace Findings.Grows

variable {f g h : Findings}

theorem refl (f : Findings) : f.Grows f := ⟨id, id, id, id, id, id, id, id⟩

theorem trans (a : f.Grows g) (b : g.Grows h) : f.Grows h where
  constants hk := b.constants (a.constants hk)
  fieldTypes hk := b.fieldTypes (a.fieldTypes hk)
  signatures hk := b.signatures (a.signatures hk)
  defaults hk := b.defaults (a.defaults hk)
  localTypes hk := b.localTypes (a.localTypes hk)
  localConstants hk := b.localConstants (a.localConstants hk)
  functionSignatures hk := b.functionSignatures (a.functionSignatures hk)
  functionDefaults hk := b.functionDefaults (a.functionDefaults hk)

end Findings.Grows

/-! ### Traces -/

/-- What a computation adds to its pass. -/
inductive Event where
  | report (d : Diagnostic)
  /-- A constant was needed that is bad or not yet known. -/
  | badConstant

abbrev Trace := List Event

namespace Trace

def diagnostics (trace : Trace) : List Diagnostic :=
  trace.filterMap fun event =>
    match event with
    | .report d => some d
    | .badConstant => none

def sawBadConstant (trace : Trace) : Bool := trace.any fun event => event matches .badConstant

/-- One diagnostic is reported and nothing else happens. -/
def Reports (trace : Trace) (message : Message) : Prop :=
  ∃ d : Diagnostic, d.message = message ∧ trace = [.report d]

/-- An error is reported and nothing else happens. -/
def Refuses (trace : Trace) : Prop := ∃ message : Message, message.category = .error ∧
  trace.Reports message

@[simp] theorem diagnostics_nil : diagnostics [] = [] := rfl

@[simp] theorem diagnostics_append (a b : Trace) :
    diagnostics (a ++ b) = diagnostics a ++ diagnostics b := List.filterMap_append

@[simp] theorem sawBadConstant_nil : sawBadConstant [] = false := rfl

@[simp] theorem sawBadConstant_append (a b : Trace) :
    sawBadConstant (a ++ b) = (sawBadConstant a || sawBadConstant b) := List.any_append

end Trace

/-- The pass after a trace. -/
def Pass.extend (pass : Pass) (trace : Trace) : Pass where
  diagnostics := ⟨pass.diagnostics.items ++ trace.diagnostics⟩
  sawBadConstant := pass.sawBadConstant || trace.sawBadConstant

@[simp] theorem Pass.extend_nil (pass : Pass) : pass.extend [] = pass := by
  simp [Pass.extend]

theorem Pass.extend_append (pass : Pass) (a b : Trace) :
    pass.extend (a ++ b) = (pass.extend a).extend b := by
  simp [Pass.extend, Bool.or_assoc]

variable {α β : Type}

/-- Results and traces, item by item. -/
inductive Each (R : α → β → Trace → Prop) : List α → List β → Trace → Prop
  | nil : Each R [] [] []
  | cons (head : R a b first) (tail : Each R list results rest) :
      Each R (a :: list) (b :: results) (first ++ rest)

namespace Each

variable {R : α → β → Trace → Prop} {list : List α} {results : List β} {trace : Trace}

theorem length_eq (h : Each R list results trace) : results.length = list.length := by
  induction h with
  | nil => rfl
  | cons _ _ ih => simp [ih]

theorem of_mem (h : Each R list results trace) {b : β} (hb : b ∈ results) :
    ∃ a ∈ list, ∃ part, R a b part := by
  induction h with
  | nil => simp at hb
  | cons head _ ih =>
    rcases List.mem_cons.1 hb with rfl | hb
    · exact ⟨_, List.mem_cons_self, _, head⟩
    · obtain ⟨a, ha, part, hpart⟩ := ih hb
      exact ⟨a, List.mem_cons_of_mem _ ha, part, hpart⟩

theorem exists_of_mem (h : Each R list results trace) {a : α} (ha : a ∈ list) :
    ∃ b ∈ results, ∃ part, R a b part := by
  induction h with
  | nil => simp at ha
  | cons head _ ih =>
    rcases List.mem_cons.1 ha with rfl | ha
    · exact ⟨_, List.mem_cons_self, _, head⟩
    · obtain ⟨b, hb, part, hpart⟩ := ih ha
      exact ⟨b, List.mem_cons_of_mem _ hb, part, hpart⟩

end Each

/-! ### Steps -/

/-- The fault that ends requests which go too deep.  Steps are the same whatever fault it is. -/
class Endless where
  fault : Fault

variable [Endless] {I : Findings → Prop}

/-- What comes of `m` in one state. -/
def StepsAt (I : Findings → Prop) (m : BindM α) (s : BindState) (K : α → Prop)
    (R : Findings → α → Trace → Prop) : Prop :=
  Ends (· = Endless.fault) m s fun a s' =>
    I s'.findings ∧ s.findings.Grows s'.findings ∧ K a ∧
      ∃ trace, s'.pass = s.pass.extend trace ∧ ∀ F, s'.findings.Grows F → R F a trace

/-- What comes of `m` wherever the findings satisfy `I`. -/
def Steps (I : Findings → Prop) (m : BindM α) (K : α → Prop) (R : Findings → α → Trace → Prop) :
    Prop :=
  ∀ s : BindState, I s.findings → StepsAt I m s K R

variable {m : BindM α} {k : α → BindM β} {K : α → Prop} {R : Findings → α → Trace → Prop}
  {L : β → Prop} {Q : Findings → β → Trace → Prop}

namespace StepsAt

variable {J : Findings → Prop} {s : BindState} {a : α}

theorem pure (hs : I s.findings) (hK : K a) (hR : ∀ F, s.findings.Grows F → R F a []) :
    StepsAt I (Pure.pure a) s K R :=
  Ends.pure ⟨hs, .refl _, hK, [], by simp, hR⟩

/-- The trace of a block is that of its first step, then that of the rest. -/
theorem bind (hm : StepsAt I m s K R)
    (hk : ∀ a s' first, K a → I s'.findings → s.findings.Grows s'.findings →
      s'.pass = s.pass.extend first → (∀ F, s'.findings.Grows F → R F a first) →
      StepsAt J (k a) s' L fun F b rest => Q F b (first ++ rest)) :
    StepsAt J (m >>= k) s L Q := by
  refine Ends.bind hm fun a s' ⟨hs', hgrows, ha, first, hfirst, hR⟩ => ?_
  refine (hk a s' first ha hs' hgrows hfirst hR).imp fun b s'' ⟨hs'', hgrows', hb, rest, hrest, hQ⟩ => ?_
  refine ⟨hs'', hgrows.trans hgrows', hb, first ++ rest, ?_, hQ⟩
  rw [hrest, hfirst, Pass.extend_append]

/-- What is made of the value of the last step leaves no trace. -/
theorem bind_pure {g : α → β} (hm : StepsAt I m s K R)
    (h : ∀ a (s' : BindState) trace, K a → I s'.findings → s.findings.Grows s'.findings →
      (∀ F, s'.findings.Grows F → R F a trace) →
      J s'.findings ∧ L (g a) ∧ ∀ F, s'.findings.Grows F → Q F (g a) trace) :
    StepsAt J (m >>= fun a => Pure.pure (g a)) s L Q := by
  refine hm.bind fun a s' trace ha hs' hgrows _ hR => ?_
  obtain ⟨hJ, hL, hQ⟩ := h a s' trace ha hs' hgrows hR
  exact .pure hJ hL fun F hF => (List.append_nil trace).symm ▸ hQ F hF

theorem weaken (hm : StepsAt I m s K R) (h : ∀ f, I f → J f) : StepsAt J m s K R := by
  refine Ends.imp hm fun a s' ⟨hs', hrest⟩ => ?_
  exact ⟨h _ hs', hrest⟩

theorem imp {K' : α → Prop} {R' : Findings → α → Trace → Prop} (hm : StepsAt I m s K R)
    (hK : ∀ a, K a → K' a)
    (hR : ∀ F a trace, s.findings.Grows F → R F a trace → R' F a trace) : StepsAt I m s K' R' := by
  refine Ends.imp hm fun a s' ⟨hs', hgrows, ha, trace, htrace, hrest⟩ => ?_
  exact ⟨hs', hgrows, hK a ha, trace, htrace,
    fun F hF => hR F a trace (hgrows.trans hF) (hrest F hF)⟩

theorem modifyFindings {g : Findings → Findings} {k : Unit → BindM β}
    (hgrows : s.findings.Grows (g s.findings))
    (hk : StepsAt I (k ()) { s with findings := g s.findings } L Q) :
    StepsAt I (BindM.modifyFindings g >>= k) s L Q := by
  refine Ends.bind_modify (Ends.imp hk ?_)
  rintro b s' ⟨hs', hgrows', hrest⟩
  exact ⟨hs', hgrows.trans hgrows', hrest⟩

theorem bind_lift {x : Except Fault α} (hx : x = .ok a) (hk : StepsAt I (k a) s L Q) :
    StepsAt I (liftM x >>= k) s L Q := by
  subst hx
  exact hk

theorem bind_findings {k : Findings → BindM β} (hk : StepsAt I (k s.findings) s L Q) :
    StepsAt I (BindM.findings >>= k) s L Q := hk

theorem bind_sawBadConstant {k : Bool → BindM β} (hk : StepsAt I (k s.pass.sawBadConstant) s L Q) :
    StepsAt I (BindM.sawBadConstant >>= k) s L Q := hk

/-- A pass of its own leaves no trace around it; its diagnostics come with the value. -/
theorem isolated (hm : StepsAt I m { s with pass := {} } K R) :
    StepsAt I (BindM.isolated m) s (fun e => K e.value) fun F e trace =>
      trace = [] ∧ ∃ inner, e.diagnostics.items = Trace.diagnostics inner ∧ R F e.value inner := by
  refine Ends.bind_get (Ends.bind_modify ?_)
  refine Ends.bind hm fun a s' ⟨hs', hgrows, ha, inner, hinner, hR⟩ => ?_
  refine Ends.bind_get (Ends.bind_modify (Ends.pure ?_))
  refine ⟨hs', hgrows, ha, [], by simp, fun F hF => ⟨rfl, inner, ?_, hR F hF⟩⟩
  simp [hinner, Pass.extend]

end StepsAt

namespace Steps

theorem pure {a : α} (hK : K a) (hR : ∀ F, R F a []) : Steps I (Pure.pure a) K R :=
  fun _ hs => .pure hs hK fun F _ => hR F

theorem bind (hm : Steps I m K R)
    (hk : ∀ a, K a → Steps I (k a) L fun F b rest => ∀ first, R F a first → Q F b (first ++ rest)) :
    Steps I (m >>= k) L Q := by
  intro s hs
  refine (hm s hs).bind fun a s' first ha hs' _ _ hR => ?_
  refine (hk a ha s' hs').imp (fun _ h => h) fun F b rest hgrows hQ => ?_
  exact hQ first (hR F hgrows)

theorem bind_pure {g : α → β} (hm : Steps I m K R)
    (h : ∀ a, K a → L (g a) ∧ ∀ F trace, R F a trace → Q F (g a) trace) :
    Steps I (m >>= fun a => Pure.pure (g a)) L Q := fun s hs =>
  (hm s hs).bind_pure fun a _ trace ha hs' _ hR =>
    ⟨hs', (h a ha).1, fun F hF => (h a ha).2 F trace (hR F hF)⟩

/-- The value after the last step. -/
theorem last {b : β} {S : Findings → Trace → Prop} (hL : L b)
    (h : ∀ F trace, S F trace → Q F b trace) :
    Steps I (Pure.pure b) L fun F b rest => ∀ trace, S F trace → Q F b (trace ++ rest) :=
  pure hL fun F trace htrace => (List.append_nil trace).symm ▸ h F trace htrace

theorem imp {K' : α → Prop} {R' : Findings → α → Trace → Prop} (hm : Steps I m K R)
    (hK : ∀ a, K a → K' a) (hR : ∀ F a trace, R F a trace → R' F a trace) : Steps I m K' R' :=
  fun s hs => (hm s hs).imp hK fun F a trace _ => hR F a trace

theorem mono {R' : Findings → α → Trace → Prop} (hm : Steps I m K R)
    (hR : ∀ F a trace, R F a trace → R' F a trace) : Steps I m K R' := hm.imp (fun _ h => h) hR

/-- After a step that leaves no trace. -/
theorem silent (hm : Steps I m K R) :
    Steps I m K fun F a rest => ∀ first : Trace, first = [] → R F a (first ++ rest) :=
  hm.mono fun _ _ _ h _ hfirst => hfirst ▸ h

/-- A choice of the first step. -/
theorem ite_bind {c : Prop} [Decidable c] {n : BindM α} (hm : c → Steps I m K R)
    (hn : ¬ c → Steps I n K R)
    (hk : ∀ a, K a → Steps I (k a) L fun F b rest => ∀ first, R F a first → Q F b (first ++ rest)) :
    Steps I (if c then m >>= k else n >>= k) L Q := by
  split
  · next h => exact bind (hm h) hk
  · next h => exact bind (hn h) hk

theorem map {f : α → β} (hm : Steps I m (fun a => L (f a)) fun F a trace => Q F (f a) trace) :
    Steps I (f <$> m) L Q := fun s hs => Ends.map (hm s hs)

variable {P : α → Prop} {x : Except Fault α}

theorem lift (hx : Yields x P)
    (h : ∀ a, x = .ok a → P a → K a ∧ ∀ F, R F a []) : Steps I (liftM x) K R := by
  obtain ⟨a, rfl, ha⟩ := hx
  exact pure (h a rfl ha).1 (h a rfl ha).2

theorem bind_lift (hx : Yields x P)
    (hk : ∀ a, x = .ok a → P a → Steps I (k a) L Q) : Steps I (liftM x >>= k) L Q := by
  obtain ⟨a, rfl, ha⟩ := hx
  exact hk a rfl ha

/-- Nothing of the state is changed or looked at. -/
theorem bind_reads (hm : ∀ s, Ends.Reads (· = Endless.fault) m s P)
    (hk : ∀ a, P a → Steps I (k a) L Q) : Steps I (m >>= k) L Q :=
  fun s hs => Ends.bind_reads (hm s) fun a ha => hk a ha s hs

theorem of_throw : Steps I (throw Endless.fault : BindM α) K R := fun _ _ => rfl

/-! ### The state -/

/-- What is published now is published at the end. -/
theorem bind_findings {k : Findings → BindM β}
    (hk : ∀ f, I f → Steps I (k f) L fun F b trace => f.Grows F → Q F b trace) :
    Steps I (BindM.findings >>= k) L Q := by
  intro s hs
  refine StepsAt.bind_findings ((hk s.findings hs s hs).imp (fun _ h => h) ?_)
  exact fun F b trace hF hQ => hQ hF

theorem regions {p : Program} {m : RegionM α} {a : α} (hm : p.Fetches m a)
    (hsound : ∀ f, I f → p.CacheSound f.regions)
    (hI : ∀ f cache, I f → p.CacheSound cache → I { f with regions := cache }) :
    Steps I (BindM.regions m) (· = a) fun _ _ trace => trace = [] := by
  intro s hs
  obtain ⟨b, cache, heq, rfl, hcache⟩ := Succeeds.exists_ok (hm s.findings.regions (hsound _ hs))
  have hrun : BindM.regions m s = .ok b { s with findings := { s.findings with regions := cache } } := by
    unfold BindM.regions EStateM.run
    rw [heq]
  exact Ends.of_eq hrun
    ⟨hI _ cache hs hcache, ⟨id, id, id, id, id, id, id, id⟩, rfl, [], by simp, fun _ _ => rfl⟩

theorem push (d : Diagnostic) :
    Steps I (BindM.push d) (fun _ => True) fun _ _ trace => trace = [.report d] := by
  intro s hs
  exact Ends.of_modify ⟨hs, .refl _, trivial, [.report d],
    by simp [Pass.extend, Trace.diagnostics, Trace.sawBadConstant, DiagnosticQueue.push],
    fun _ _ => rfl⟩

theorem markBadConstant :
    Steps I BindM.markBadConstant (fun _ => True) fun _ _ trace => trace = [.badConstant] := by
  intro s hs
  exact Ends.of_modify ⟨hs, .refl _, trivial, [.badConstant],
    by simp [Pass.extend, Trace.diagnostics, Trace.sawBadConstant], fun _ _ => rfl⟩

theorem isolated (hm : Steps I m K R) :
    Steps I (BindM.isolated m) (fun e => K e.value) fun F e trace =>
      trace = [] ∧ ∃ inner, e.diagnostics.items = Trace.diagnostics inner ∧ R F e.value inner :=
  fun s hs => .isolated (hm { s with pass := {} } hs)

theorem quietly (hm : Steps I m K R) :
    Steps I (BindM.quietly m) K fun F a trace => trace = [] ∧ ∃ inner, R F a inner := by
  refine bind_pure (isolated hm) fun e he => ⟨he, fun F trace ⟨htrace, inner, _, hR⟩ => ?_⟩
  exact ⟨htrace, inner, hR⟩

end Steps

/-! ### Lists -/

variable {R : Findings → α → β → Trace → Prop} {K : α → β → Prop} {f : α → BindM β}

theorem Steps.mapM {l : List α} (h : ∀ a ∈ l, Steps I (f a) (K a) fun F b trace => R F a b trace) :
    Steps I (l.mapM f) (List.Forall₂ K l) fun F results trace =>
      Each (R F) l results trace := by
  induction l with
  | nil => exact pure .nil fun F => .nil
  | cons a rest ih =>
    rw [List.mapM_cons]
    refine bind (h a (by simp)) fun b hb => ?_
    refine bind_pure (ih fun a ha => h a (List.mem_cons_of_mem _ ha)) fun results hresults => ?_
    exact ⟨.cons hb hresults, fun F trace₂ h₂ trace₁ h₁ => .cons h₁ h₂⟩

theorem Steps.forM {f : α → BindM PUnit} {R : Findings → α → Prop} {l : List α}
    (h : ∀ a ∈ l, Steps I (f a) (fun _ => True) fun F _ trace => trace = [] ∧ R F a) :
    Steps I (l.forM f) (fun _ => True) fun F _ trace => trace = [] ∧ ∀ a ∈ l, R F a := by
  induction l with
  | nil => exact pure trivial fun F => ⟨rfl, by simp⟩
  | cons a rest ih =>
    refine bind (h a (by simp)) fun _ _ => ?_
    refine (ih fun a ha => h a (List.mem_cons_of_mem _ ha)).mono ?_
    rintro F _ _ ⟨rfl, hrest⟩ _ ⟨rfl, ha⟩
    exact ⟨rfl, List.forall_mem_cons.2 ⟨ha, hrest⟩⟩

theorem Steps.optionMapM
    {o : Option α} (h : ∀ a, o = some a → Steps I (f a) (K a) fun F b trace => R F a b trace) :
    Steps I (o.mapM f) (fun result => ∀ b, result = some b → ∃ a, o = some a ∧ K a b)
      fun F result trace => o = none ∧ result = none ∧ trace = [] ∨
        ∃ a b, o = some a ∧ result = some b ∧ R F a b trace := by
  cases o with
  | none => exact pure (by simp) fun F => .inl ⟨rfl, rfl, rfl⟩
  | some a =>
    refine map ((h a rfl).imp (fun b hb => ?_) fun F b trace hR => ?_)
    · rintro _ ⟨rfl⟩
      exact ⟨a, rfl, hb⟩
    · exact .inr ⟨a, b, rfl, rfl, hR⟩

/-! ### Diagnostics -/

namespace Program.Formed

variable {p : Program} (formed : p.Formed)
include formed

variable {node : NodeId}

omit [Endless] in
theorem report_succeeds (h : node < p.tree.size) (message : Message)
    (args : List String) (s : BindState) :
    Succeeds (p.report node message args) s fun _ s' => ∃ d, p.diagnostic node message args = .ok d ∧
      s' = { s with pass := { s.pass with diagnostics := s.pass.diagnostics.push d } } := by
  obtain ⟨d, hd, -⟩ : Yields (p.diagnostic node message args) fun _ => True :=
    .bind (formed.span_yields h) fun _ _ => .pure trivial
  refine Ends.bind_lift ⟨d, hd, rfl⟩ ?_
  rintro _ rfl
  exact Ends.of_modify ⟨_, hd, rfl⟩

theorem report_steps (h : node < p.tree.size) (message : Message) (args : List String) :
    Steps I (p.report node message args) (fun _ => True) fun _ _ trace => trace.Reports message := by
  have hd : Yields (p.diagnostic node message args) fun d => d.message = message :=
    .bind (formed.span_yields h) fun _ _ => .pure rfl
  refine Steps.bind_lift hd fun d _ hd => (Steps.push d).mono ?_
  rintro F _ trace rfl
  exact ⟨d, hd, rfl⟩

/-- Reporting an error and giving up, where the rules allow it. -/
theorem refused_steps {a : α} {K : α → Prop} {R : Findings → α → Trace → Prop} (h : node < p.tree.size)
    {message : Message} (hmessage : message.category = .error) (args : List String) (ha : K a)
    (hR : ∀ {F trace}, trace.Refuses → R F a trace) :
    Steps I (do
      p.report node message args
      return a) K R :=
  Steps.bind_pure (formed.report_steps h message args) fun _ _ =>
    ⟨ha, fun _ _ htrace => hR ⟨message, hmessage, htrace⟩⟩

omit [Endless] in
theorem displayBoth_yields {a b : Ty} (ha : a.Known p) (hb : b.Known p) :
    Yields (p.displayBoth a b) fun _ => True :=
  .bind (formed.display_yields ha) fun _ _ => .bind (formed.display_yields hb) fun _ _ =>
    .pure trivial

end Program.Formed
end Bindery
