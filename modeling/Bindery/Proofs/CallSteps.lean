import Bindery.Proofs.NameSteps
import Bindery.Proofs.InnerScopes

/-! # Steps of calls

Resolving a call comes to an end, with the arguments of an applicable candidate or with one
diagnostic; calls follow the rules of `Derives`. -/

namespace Bindery

variable {p : Program}

/-! ### Trying candidates -/

variable (p) in
def Argument.Known (a : Argument) : Prop := a.expression.Known p ∧ a.node < p.tree.size

variable (p) in
/-- The argument that a mismatch is about exists. -/
def Mismatch.Known : Mismatch → Prop
  | .wrongCount => True
  | .noSuchParameter argument _ | .alreadySpecified argument _
  | .noImplicitConversion argument _ _ _ => argument < p.tree.size

variable (p) in
/-- An attempt does not fault; it gives something that satisfies `Q`, or a known mismatch. -/
def Tries {α : Type} (x : Attempt α) (Q : α → Prop) : Prop :=
  Yields x.run fun result =>
    match result with
    | .ok a => Q a
    | .error mismatch => mismatch.Known p

namespace Tries

variable {α β : Type}

variable {Q : α → Prop}

theorem pure {a : α} (h : Q a) : Tries p (Pure.pure a : Attempt α) Q := ⟨_, rfl, h⟩

theorem of_throw {m : Mismatch} (h : m.Known p) :
    Tries p (throw m : Attempt α) Q := ⟨_, rfl, h⟩

theorem bind {x : Attempt α} {k : α → Attempt β} {R : α → Prop} {Q : β → Prop} (hx : Tries p x R)
    (hk : ∀ a, R a → Tries p (k a) Q) : Tries p (x >>= k) Q := by
  obtain ⟨result, hresult, hpost⟩ := hx
  unfold Tries
  rw [ExceptT.run_bind, hresult]
  cases result with
  | ok a => exact hk a hpost
  | error mismatch => exact ⟨_, rfl, hpost⟩

theorem lift {x : Except Fault α} (hx : Yields x Q) :
    Tries p (liftM x : Attempt α) Q := by
  obtain ⟨a, rfl, ha⟩ := hx
  exact ⟨_, rfl, ha⟩

end Tries

namespace Candidate

variable {α : Type} (c : Candidate α) {arguments : List Argument}

/-- Arguments are put into slots as they are; nothing else gets there. -/
theorem fillSlots_mem (hknown : ∀ a ∈ arguments, a.Known p)
    {position : Nat} {slots : List (Option Argument)} (hslots : ∀ a, some a ∈ slots → a.Known p) :
    Tries p (ofExcept (c.fillSlots arguments position slots)) fun filled =>
      ∀ a, some a ∈ filled → a.Known p := by
  induction arguments generalizing position slots with
  | nil => exact ⟨.ok slots, rfl, hslots⟩
  | cons argument rest ih =>
    have hargument := hknown argument (by simp)
    rw [fillSlots]
    cases hslot : c.slotOf argument position with
    | error mismatch =>
      refine ⟨.error mismatch, rfl, ?_⟩
      unfold slotOf at hslot
      split at hslot
      · simp at hslot
      · split at hslot
        · simp at hslot
        · obtain rfl := Except.error.inj hslot
          exact hargument.2
    | ok index =>
      dsimp only [bind, Except.bind]
      split
      · exact ⟨_, rfl, hargument.2⟩
      · refine ih (fun a ha => hknown a (List.mem_cons_of_mem _ ha)) fun a ha => ?_
        rcases List.mem_or_eq_of_mem_set ha with ha | ha
        · exact hslots a ha
        · obtain rfl := Option.some.inj ha
          exact hargument

theorem passArguments_tries (formed : p.Formed)
    {pairs : List (Option Argument × CandidateParameter)}
    (h : ∀ pair ∈ pairs, pair.2.type.Known p ∧ ∀ a, pair.1 = some a → a.Known p) :
    Tries p (passArguments p.symbols pairs) fun _ => True := by
  induction pairs with
  | nil => exact .pure trivial
  | cons pair rest ih =>
    obtain ⟨slot, parameter⟩ := pair
    obtain ⟨htype, hslot⟩ := h _ List.mem_cons_self
    have onward : ∀ passed : Expr × Nat, Tries p (passArguments p.symbols rest >>= fun others =>
        pure (passed.1 :: others.1, passed.2 + others.2)) fun _ => True := fun passed =>
      .bind (ih fun pair hpair => h pair (List.mem_cons_of_mem _ hpair)) fun _ _ => .pure trivial
    unfold passArguments
    cases slot with
    | none =>
      cases parameter.defaultValue with
      | none =>
        refine .bind (R := fun _ => True) (.of_throw (m := .wrongCount) trivial) ?_
        exact fun passed _ => onward passed
      | some value => exact onward (value, 0)
    | some argument =>
      obtain ⟨hexpression, hnode⟩ := hslot argument rfl
      refine .bind (.lift (formed.conversion_yields hexpression.2.1 htype)) fun cast _ => ?_
      split
      · exact .bind (R := fun _ => True) (.pure trivial) fun passed _ => onward passed
      · refine .bind (.lift (formed.display_yields hexpression.2.1)) fun _ _ => ?_
        refine .bind (.lift (formed.display_yields htype)) fun _ _ => ?_
        exact .bind (R := fun _ => True) (.of_throw hnode) fun passed _ => onward passed

/-- Trying a candidate comes to an end. -/
theorem apply_tries (formed : p.Formed)
    (hknown : ∀ a ∈ arguments, a.Known p) (htypes : ∀ q ∈ c.parameters, q.type.Known p) :
    Tries p (c.apply p.symbols arguments) fun _ => True := by
  unfold apply
  split
  · exact .of_throw trivial
  · refine .bind (c.fillSlots_mem hknown (by simp)) fun slots hslots => ?_
    refine passArguments_tries formed fun pair hpair => ?_
    obtain ⟨slot, parameter⟩ := pair
    exact ⟨htypes _ (List.of_mem_zip hpair).2,
      fun a ha => hslots a (ha ▸ (List.of_mem_zip hpair).1)⟩

end Candidate

/-! ### Resolving calls -/

variable (p) in
/-- What resolving a call gives: the arguments as a candidate takes them and nothing to report, or
one error.  Without candidates there is nothing to report either. -/
def Resolves {α : Type} (candidates : List (Candidate α)) (arguments : List Argument)
    (resolution : Resolution α) (trace : Trace) : Prop :=
  match resolution with
  | .succeeded overload passed => trace = [] ∧ ∃ c ∈ candidates, c.overload = overload ∧
      ∃ cost, (c.apply p.symbols arguments).run = .ok (.ok (passed, cost))
  | _ => candidates = [] ∧ trace = [] ∨ trace.Refuses

/-- A default value that was published comes from its derivation. -/
theorem GivesDefault.derives {F f g : Findings} {t : Ty} {value : Expr} {trace : Trace}
    (h : GivesDefault p F g t value trace) {parameter : Option SymbolId}
    (hpublished : ∀ symbol, parameter = some symbol → ∃ known : Evaluated (Option Expr),
      F.defaults.get? symbol = some known ∧ known.value = some value) :
    Derives p F f (.default parameter value) [] := by
  obtain ⟨chain, node, first, second, -, h⟩ := h
  exact .default hpublished h

variable {α β : Type} {list : List α} {results : List β}

/-- Where no item leaves a trace, the list leaves none. -/
theorem Each.quiet {S : α → β → Prop} {trace : Trace}
    (h : Each (fun a b trace => trace = [] ∧ S a b) list results trace) :
    trace = [] ∧ List.Forall₂ S list results := by
  induction h with
  | nil => exact ⟨rfl, .nil⟩
  | cons head _ ih =>
    obtain ⟨rfl, hS⟩ := head
    exact ⟨ih.1, .cons hS ih.2⟩

theorem forall_of_forall₂ {P : β → Prop} (h : List.Forall₂ (fun _ b => P b) list results) :
    ∀ b ∈ results, P b := by
  induction h with
  | nil => simp
  | cons head _ ih => exact List.forall_mem_cons.2 ⟨head, ih⟩

theorem exists_of_forall₂ {R : α → β → Prop} (h : List.Forall₂ R list results)
    {b : β} (hb : b ∈ results) : ∃ a ∈ list, R a b := by
  induction h with
  | nil => simp at hb
  | @cons a _ _ _ head _ ih =>
    rcases List.mem_cons.1 hb with rfl | hb
    · exact ⟨a, by simp, head⟩
    · obtain ⟨a, ha, hR⟩ := ih hb
      exact ⟨a, List.mem_cons_of_mem _ ha, hR⟩

variable (p) in
/-- A method as a call saw it. -/
def MethodCandidate (F f : Findings) (method : SymbolId) (c : Candidate SymbolId) : Prop :=
  c.overload = method ∧ ∃ ids signature, p.symbols.parameters method = .ok ids ∧
    SeesSignature p F f method signature ∧
    c.parameters.map (·.type) = (ids.zip signature.parameters).map (·.2) ∧
    ∀ (i : Nat) (parameter : CandidateParameter) (value : Expr),
      c.parameters[i]? = some parameter → parameter.defaultValue = some value →
        Derives p F f (.default ids[i]? value) []

theorem Yields.filterMapM {x : α → Except Fault (Option β)} {Q : β → Prop}
    (h : ∀ a ∈ list, Yields (x a) fun b => ∀ c, b = some c → Q c) :
    Yields (list.filterMapM x) fun results => ∀ c ∈ results, Q c := by
  have aux : ∀ (list : List α) (acc : List β),
      (∀ a ∈ list, Yields (x a) fun b => ∀ c, b = some c → Q c) → (∀ c ∈ acc, Q c) →
      Yields (List.filterMapM.loop x list acc) fun results => ∀ c ∈ results, Q c := by
    intro list
    induction list with
    | nil => exact fun acc _ hacc => .pure (by simpa using hacc)
    | cons a rest ih =>
      intro acc h hacc
      rw [List.filterMapM.loop]
      refine .bind (h a (by simp)) fun b hb => ?_
      cases b with
      | none => exact ih acc (fun a ha => h a (List.mem_cons_of_mem _ ha)) hacc
      | some c =>
        refine ih _ (fun a ha => h a (List.mem_cons_of_mem _ ha)) fun d hd => ?_
        rcases List.mem_cons.1 hd with rfl | hd
        · exact hb d rfl
        · exact hacc d hd
  exact aux list [] h (by simp)

namespace Program.Formed

variable [Endless] (formed : p.Formed)
include formed

variable {callee : Expr} {α : Type} {arguments : List Argument} {candidates : List (Candidate α)}

omit [Endless] in
theorem applicable_yields (hknown : ∀ a ∈ arguments, a.Known p)
    (htypes : ∀ c ∈ candidates, ∀ q ∈ c.parameters, q.type.Known p) :
    Yields (Resolution.applicable p.symbols candidates arguments) fun list =>
      ∀ a ∈ list, a.candidate ∈ candidates ∧
        (a.candidate.apply p.symbols arguments).run = .ok (.ok (a.arguments, a.cost)) := by
  refine Yields.filterMapM fun candidate hcandidate => ?_
  obtain ⟨result, hresult, -⟩ := candidate.apply_tries formed hknown (htypes candidate hcandidate)
  refine .bind ⟨result, hresult, rfl⟩ ?_
  rintro _ rfl
  cases result with
  | ok passed =>
    refine .pure ?_
    rintro _ ⟨rfl⟩
    exact ⟨hcandidate, hresult⟩
  | error mismatch => exact .pure (by simp)

omit [Endless] in
theorem resolve_yields {node : NodeId} (hknown : ∀ a ∈ arguments, a.Known p)
    (htypes : ∀ c ∈ candidates, ∀ q ∈ c.parameters, q.type.Known p) (hnode : node < p.tree.size) :
    Yields (Resolution.resolve p.tree p.symbols candidates arguments node) fun result =>
      Resolves p candidates arguments result.1 (result.2.map .report) := by
  have diagnose : ∀ {n : NodeId} {message : Message} {args : List String}
      {resolution : Resolution α}, n < p.tree.size → message.category = .error →
      resolution.isSucceeded = false → Yields (do
        return (resolution, [Diagnostic.placed p.tree.fileName (← p.tree.span n) message args]) :
        Except Fault (Resolution α × List Diagnostic)) fun result =>
      Resolves p candidates arguments result.1 (result.2.map .report) := by
    intro n message args resolution hn hmessage hresolution
    refine .bind (formed.span_yields hn) fun span _ => .pure ?_
    cases resolution with
    | succeeded _ _ => simp [Resolution.isSucceeded] at hresolution
    | failed => exact .inr ⟨message, hmessage, _, rfl, rfl⟩
    | ambiguous => exact .inr ⟨message, hmessage, _, rfl, rfl⟩
  unfold Resolution.resolve
  dsimp only
  split
  · exact .pure (.inl ⟨rfl, rfl⟩)
  · next candidate =>
    obtain ⟨result, hresult, hpost⟩ := candidate.apply_tries formed hknown (htypes candidate (by simp))
    refine .bind ⟨result, hresult, rfl⟩ ?_
    rintro _ rfl
    cases result with
    | ok passed =>
      obtain ⟨passed, cost⟩ := passed
      exact .pure ⟨rfl, candidate, by simp, rfl, cost, hresult⟩
    | error mismatch =>
      simp only [bind_assoc, pure_bind]
      cases mismatch with
      | wrongCount => exact diagnose hnode rfl rfl
      | noSuchParameter argument name => exact diagnose hpost rfl rfl
      | alreadySpecified argument name => exact diagnose hpost rfl rfl
      | noImplicitConversion argument source target cast =>
        refine diagnose hpost ?_ rfl
        unfold Candidate.complaint
        dsimp only
        split <;> rfl
  · next first rest _ =>
    refine .bind (formed.applicable_yields hknown htypes) fun list hlist => ?_
    have hcheapest : ∀ a ∈ Resolution.cheapest list, a ∈ list := fun a ha =>
      (List.mem_filter.1 ha).1
    split
    · simp only [bind_assoc, pure_bind]
      exact diagnose hnode rfl rfl
    · next best hbest =>
      obtain ⟨hmem, happly⟩ := hlist best (hcheapest best (by simp [hbest]))
      exact .pure ⟨rfl, best.candidate, hmem, rfl, best.cost, happly⟩
    · next tied _ =>
      refine .bind (R := fun _ => True) ((Yields.mapM (Q := fun _ _ => True) fun a ha => ?_).imp
        fun _ _ => trivial) fun names _ => ?_
      · obtain ⟨hmem, -⟩ := hlist a (hcheapest a ha)
        refine .bind (R := fun _ => True) ((Yields.mapM (Q := fun _ _ => True) fun q hq => ?_).imp
          fun _ _ => trivial) fun _ _ => .pure trivial
        exact formed.display_yields (htypes _ hmem q hq)
      · simp only [bind_assoc, pure_bind]
        exact diagnose hnode rfl rfl

theorem resolve_steps {I : Findings → Prop} (candidates : List (Candidate α))
    {node : NodeId} (hknown : ∀ a ∈ arguments, a.Known p)
    (htypes : ∀ c ∈ candidates, ∀ q ∈ c.parameters, q.type.Known p) (hnode : node < p.tree.size) :
    Steps I (p.resolve candidates arguments node)
      (fun resolution => ∀ overload, resolution.best? = some overload →
        ∃ c ∈ candidates, c.overload = overload)
      fun _ resolution trace => Resolves p candidates arguments resolution trace := by
  have pushes : ∀ list : List Diagnostic, Steps I (list.forM BindM.push) (fun _ => True)
      fun _ _ trace => trace = list.map .report := by
    intro list
    induction list with
    | nil => exact .pure trivial fun _ => rfl
    | cons d rest ih =>
      refine Steps.bind (Steps.push d) fun _ _ => ih.mono ?_
      rintro F _ trace rfl _ rfl
      rfl
  refine Steps.bind_lift (formed.resolve_yields hknown htypes hnode) fun result _ hresult => ?_
  obtain ⟨resolution, diagnostics⟩ := result
  refine Steps.bind (pushes diagnostics) fun _ _ => .pure ?_ ?_
  · intro overload hbest
    cases resolution with
    | succeeded _ _ =>
      obtain rfl := Option.some.inj hbest
      obtain ⟨-, c, hc, hoverload, -⟩ := hresult
      exact ⟨c, hc, hoverload⟩
    | failed | ambiguous => simp [Resolution.best?] at hbest
  · rintro F _ rfl
    rw [List.append_nil]
    exact hresult

/-! ### Calls -/

variable {ask : Asker} (f : Findings) {chain : Chain} {node : NodeId}

theorem candidateDefault_steps {parameter : Nat} (h : parameter < p.symbols.size) :
    Steps (Stage p f) (p.candidateDefault parameter) (fun _ => True) fun F found trace =>
      trace = [] ∧ ∀ value, found = some value → Derives p F f (.default (some parameter) value) [] := by
  refine Steps.bind_lift (.map ((formed.table.kind_yields h).imp fun _ _ => trivial))
    fun data hdata (_ : True) => ?_
  dsimp only
  cases hnode : data.bind (·.defaultValue) with
  | none => exact .pure trivial fun F => ⟨rfl, by simp⟩
  | some node =>
    refine Steps.bind_findings fun g hg => .pure trivial fun F hF => ⟨rfl, ?_⟩
    rintro _ ⟨rfl⟩
    cases hknown : g.defaults.get? parameter with
    | none =>
      refine .missingDefault ?_
      cases hf : f.defaults.get? parameter with
      | none => rfl
      | some known =>
        rw [hg.grows.defaults hf] at hknown
        simp at hknown
    | some known =>
      have hF' := hF.defaults hknown
      cases hvalue : known.value with
      | none =>
        simp only [Option.bind_some, hvalue]
        refine .unboundDefault hF' hvalue ?_
        unfold Program.defaultNode?
        rw [hdata]
        exact congrArg Except.ok hnode
      | some value =>
        simp only [Option.bind_some, hvalue]
        obtain ⟨_, _, _, -, -, hgives⟩ := (hg.sound.defaults hknown F hF).2 value hvalue
        exact hgives.derives fun _ hsymbol => ⟨known, Option.some.inj hsymbol ▸ hF', hvalue⟩

variable (spec : AskerSpec p ask)
include spec

theorem methodCandidate_steps {method : Nat} (h : method < p.symbols.size) :
    Steps (Stage p f) (p.methodCandidate ask method)
      (fun c => c.overload = method ∧ ∀ q ∈ c.parameters, q.type.Known p) fun F c trace =>
        trace = [] ∧ MethodCandidate p F f method c := by
  refine Steps.bind_answer (spec.sees f h) fun signature hsignature => ?_
  refine Steps.bind_lift (formed.table.parameters_yields h) fun ids hids hlt => ?_
  have parameters := Steps.mapM (I := Stage p f) (l := ids.zip signature.value.parameters)
    (f := fun pair => do
      return { name := ← p.symbols.name pair.1, type := pair.2,
               defaultValue := ← p.candidateDefault pair.1 : CandidateParameter })
    (K := fun pair q => q.type = pair.2)
    (R := fun F pair q trace => trace = [] ∧ ∀ value, q.defaultValue = some value →
      Derives p F f (.default (some pair.1) value) []) (by
    intro pair hpair
    have hid : pair.1 < p.symbols.size := hlt _ (List.of_mem_zip (b := pair.2) hpair).1
    refine Steps.bind_lift (formed.table.name_yields hid) fun name _ _ => ?_
    refine Steps.bind_answer (formed.candidateDefault_steps f hid) fun value _ => ?_
    exact .pure rfl fun F hvalue => ⟨rfl, hvalue⟩)
  refine Steps.bind parameters fun parameters htypes => ?_
  refine Steps.bind_lift (formed.table.name_yields h) fun name _ _ => ?_
  have htypes' : parameters.map (·.type) = (ids.zip signature.value.parameters).map (·.2) := by
    rw [← List.forall₂_eq_eq_eq, List.forall₂_map_left_iff, List.forall₂_map_right_iff]
    exact htypes.flip
  refine .pure ⟨rfl, fun q hq => ?_⟩ fun F trace heach hsees => ?_
  · have hmem : q.type ∈ (ids.zip signature.value.parameters).map (·.2) :=
      htypes' ▸ List.mem_map.2 ⟨q, hq, rfl⟩
    obtain ⟨pair, hpair, heq⟩ := List.mem_map.1 hmem
    exact hsignature.1 _ (heq ▸ (List.of_mem_zip (a := pair.1) hpair).2)
  · obtain ⟨rfl, hdefaults⟩ := heach.quiet
    refine ⟨rfl, rfl, ids, signature.value, hids, hsees, htypes', fun i q value hq hvalue => ?_⟩
    obtain ⟨hlength, hget⟩ := List.forall₂_iff_get.1 hdefaults
    obtain ⟨hi, rfl⟩ := List.getElem?_eq_some_iff.1 hq
    have hi' : i < (ids.zip signature.value.parameters).length := hlength ▸ hi
    have hid : ids[i]? = some ((ids.zip signature.value.parameters).get ⟨i, hi'⟩).1 := by
      rw [List.length_zip] at hi'
      have : i < ids.length := by omega
      simp [List.getElem?_eq_getElem this]
    rw [hid]
    exact hget i hi' hi value hvalue

variable (hnode : node < p.tree.size) {arguments : List Argument}
  (hknown : ∀ a ∈ arguments, a.Known p)
include hnode hknown

theorem callMethod_steps {receiver : Option Expr} {methods : List SymbolId}
    (hkind : callee.kind = .methods receiver methods)
    (hmethods : ∀ m : Nat, m ∈ methods → m < p.symbols.size) :
    Steps (Stage p f) (p.callMethod ask chain receiver methods arguments node) (Expr.Known p)
      fun F e trace => Derives p F f (.call chain callee arguments node e) trace := by
  refine Steps.bind (Steps.mapM (K := fun method c => c.overload = method ∧
      ∀ q ∈ c.parameters, q.type.Known p) (R := fun F method c trace => trace = [] ∧
        MethodCandidate p F f method c)
    fun method hmethod => formed.methodCandidate_steps f spec (hmethods method hmethod))
    fun candidates hcandidates => ?_
  have hall : ∀ c ∈ candidates, c.overload ∈ methods ∧ ∀ q ∈ c.parameters, q.type.Known p := by
    intro c hc
    obtain ⟨method, hmethod, hoverload, htypes⟩ := exists_of_forall₂ hcandidates hc
    exact ⟨hoverload ▸ hmethod, htypes⟩
  refine Steps.bind (formed.resolve_steps candidates hknown (fun c hc => (hall c hc).2) hnode)
    fun resolution hbest => ?_
  have failed : resolution.best? = none →
      Steps (Stage p f) (return .error node : BindM Expr) (Expr.Known p) fun F e rest =>
        ∀ second, Resolves p candidates arguments resolution second → ∀ first,
          Each (fun method c trace => trace = [] ∧ MethodCandidate p F f method c) methods candidates
            first → Derives p F f (.call chain callee arguments node e) (first ++ (second ++ rest)) := by
    intro hfailed
    refine .pure (Expr.known_error hnode) fun F second hsecond first heach => ?_
    obtain ⟨rfl, hforall⟩ := heach.quiet
    rw [List.append_nil, List.nil_append]
    cases resolution with
    | succeeded _ _ => simp [Resolution.best?] at hfailed
    | failed | ambiguous =>
      rcases hsecond with ⟨rfl, rfl⟩ | hrefused
      · cases hforall
        exact .brokenCall (.inr ⟨receiver, hkind⟩)
      · exact .refusedCall hrefused
  cases resolution with
  | failed => exact failed rfl
  | ambiguous => exact failed rfl
  | succeeded method passed =>
    obtain ⟨c, hc, hmethod⟩ := hbest method rfl
    have hlt : method < p.symbols.size := hmethods method (hmethod ▸ (hall c hc).1)
    -- the result is typed by the signature, whether or not the call is allowed here
    have answered : ∀ {T : Trace → Prop}, (∀ t, T t → t = [] ∨ t.Refuses) → Steps (Stage p f) (do
        let signature ← ask (.signature method)
        return .plain (.call receiver method passed) signature.value.returnType node)
        (Expr.Known p) fun F e rest => ∀ third, T third → ∀ second,
          Resolves p candidates arguments (.succeeded method passed) second → ∀ first,
          Each (fun method c trace => trace = [] ∧ MethodCandidate p F f method c) methods
            candidates first →
          Derives p F f (.call chain callee arguments node e)
            (first ++ (second ++ (third ++ rest))) := by
      intro T hT
      refine Steps.bind_answer (spec.sees f hlt) fun result hresult => ?_
      refine .pure (Expr.known_plain hnode hresult.2 trivial) ?_
      rintro F hsees third hthird _ ⟨rfl, d, hd, rfl, cost, happly⟩ first heach
      obtain ⟨rfl, hforall⟩ := heach.quiet
      obtain ⟨_, hmem, rfl, ids, signature, hids, hsignature, htypes, hdefaults⟩ :=
        exists_of_forall₂ hforall hd
      rw [List.append_nil, List.nil_append, List.nil_append]
      exact .methodCall hkind hmem hids hsignature htypes hdefaults happly hsees (hT third hthird)
    refine Steps.bind_lift (.map ((formed.table.kind_yields hlt).imp fun _ _ => trivial))
      fun data _ (_ : True) => ?_
    split
    · refine Steps.bind_lift (formed.table.name_yields hlt) fun name _ _ => ?_
      refine Steps.bind (formed.report_steps hnode _ _) fun _ _ => ?_
      exact answered fun t ht => .inr ⟨_, rfl, ht⟩
    · refine (answered (T := (· = [])) fun t ht => .inl ht).mono ?_
      intro F e rest h
      exact h [] rfl

variable {function : LocalFunction}

omit formed hnode hknown in
theorem signatureOfFunction_steps (hchain : chain.Known p) (hfunction : function.Known p) :
    Steps (Stage p f) (p.signatureOfFunction ask chain function) (Signature.Known p)
      fun F signature trace => trace = [] ∧ F.functionSignature? function = some signature := by
  refine Steps.bind_findings fun g hg => ?_
  cases hsignature : g.functionSignature? function with
  | some signature =>
    refine .pure (hg.sound.functionSignatures hsignature) fun F hF => ⟨rfl, ?_⟩
    exact hF.functionSignatures hsignature
  | none =>
    refine Steps.bind_lift (Chain.enclosing_yields hchain hfunction.declaration_lt)
      fun scope _ hscope => ?_
    refine Steps.bind_publish (spec.functionSignature f hscope hfunction)
      (fun _ g _ hknown hg hanswer => ?_) fun signature g hknown hg => ?_
    · obtain ⟨-, _, htypes⟩ := hanswer g (.refl g)
      exact hg.sound.publishFunctionSignature hknown hfunction htypes.length_eq
    obtain ⟨s, hs, hcases⟩ := g.functionSignature?_publish function signature
    rw [hs, Option.getD_some]
    refine .pure ?_ fun F first hfirst hF _ => ⟨?_, hF.functionSignatures hs⟩
    · rcases hcases with hold | rfl
      · exact hg.sound.functionSignatures hold
      · exact hknown
    · rw [List.append_nil]
      exact hfirst.1

theorem callFunction_steps (hchain : chain.Known p)
    (hkind : callee.kind = .localFunction function) (hfunction : function.Known p) :
    Steps (Stage p f) (p.callFunction ask chain function arguments node) (Expr.Known p)
      fun F e trace => Derives p F f (.call chain callee arguments node e) trace := by
  refine Steps.bind_answer (signatureOfFunction_steps f spec hchain hfunction)
    fun signature hsignature => ?_
  refine Steps.bind_findings fun g hg => ?_
  let parameters := (function.parameters.zip signature.parameters).zipIdx.map fun pair =>
    (⟨pair.1.1.name, pair.1.2, ((((g.functionDefaults? function).getD [])[pair.2]?).join)⟩ :
      CandidateParameter)
  let candidate : Candidate LocalFunction := ⟨function, function.name, parameters⟩
  have htypes : parameters.map (·.type) = (function.parameters.zip signature.parameters).map (·.2) := by
    simp only [parameters, List.map_map]
    conv_rhs => rw [← List.zipIdx_map_fst 0 (function.parameters.zip signature.parameters)]
    rw [List.map_map]
    rfl
  have hall : ∀ c ∈ [candidate], ∀ q ∈ c.parameters, q.type.Known p := by
    intro c hc q hq
    rw [List.mem_singleton.1 hc] at hq
    have hmem : q.type ∈ (function.parameters.zip signature.parameters).map (·.2) :=
      htypes ▸ List.mem_map.2 ⟨q, hq, rfl⟩
    obtain ⟨pair, hpair, heq⟩ := List.mem_map.1 hmem
    exact hsignature.1 _ (heq ▸ (List.of_mem_zip (a := pair.1) hpair).2)
  refine Steps.bind (formed.resolve_steps [candidate] hknown hall hnode)
    fun resolution _ => ?_
  cases resolution with
  | failed | ambiguous =>
    refine .pure (Expr.known_error hnode) fun F second hsecond hF hpublished => ?_
    rcases hsecond with ⟨hnil, -⟩ | hrefused
    · simp at hnil
    · rw [List.append_nil]
      exact .refusedCall hrefused
  | succeeded overload passed =>
    refine .pure (Expr.known_plain hnode hsignature.2 trivial) ?_
    rintro F _ ⟨rfl, c, hc, rfl, cost, happly⟩ hF hpublished
    obtain rfl := List.mem_singleton.1 hc
    -- a default value comes from those that are published
    have default : ∀ (i : Nat) (q : CandidateParameter) (value : Expr), parameters[i]? = some q →
        q.defaultValue = some value → ∃ values, g.functionDefaults? function = some values ∧
          values[i]? = some (some value) := by
      intro i q value hq hvalue
      rw [List.getElem?_map, List.getElem?_zipIdx] at hq
      obtain ⟨pair, hpair, rfl⟩ := Option.map_eq_some_iff.1 hq
      obtain ⟨_, -, rfl⟩ := Option.map_eq_some_iff.1 hpair
      have ho := Option.join_eq_some_iff.1 hvalue
      rw [Nat.zero_add] at ho
      cases hdefaults : g.functionDefaults? function with
      | none => simp [hdefaults] at ho
      | some values =>
        rw [hdefaults, Option.getD_some] at ho
        exact ⟨values, rfl, ho⟩
    refine .functionCall hkind rfl hpublished htypes (fun i q value hq hvalue => ?_)
      (fun i q value hq hvalue => ?_) happly
    · obtain ⟨values, hvalues, hi⟩ := default i q value hq hvalue
      exact ⟨values, hF.functionDefaults hvalues, hi⟩
    · obtain ⟨values, hvalues, hi⟩ := default i q value hq hvalue
      obtain ⟨_, _, _, hgives⟩ :=
        hg.sound.functionDefaults hvalues F hF value (List.mem_of_getElem? hi)
      exact hgives.derives (by simp)

theorem bindCall_steps {calleeNode : NodeId} (hchain : chain.Known p) (hcallee : callee.Known p)
    (hcalleeNode : calleeNode < p.tree.size) :
    Steps (Stage p f) (p.bindCall ask chain callee calleeNode arguments node) (Expr.Known p)
      fun F e trace => Derives p F f (.call chain callee arguments node e) trace := by
  unfold bindCall
  split
  · next herror => exact .pure (Expr.known_error hnode) fun F => .brokenCall (.inl herror)
  · obtain ⟨-, -, hkind⟩ := hcallee
    split
    · next receiver methods hmethods =>
      rw [hmethods] at hkind
      exact formed.callMethod_steps f spec hnode hknown hmethods hkind
    · next function hfunction =>
      rw [hfunction] at hkind
      exact formed.callFunction_steps f spec hnode hknown hchain hfunction hkind
    · exact formed.refuse_steps hcalleeNode hnode rfl _ .refusedCall

end Program.Formed
end Bindery
