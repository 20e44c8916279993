import Bindery.Proofs.OperationSteps

/-! # Steps of names

Names, members and accesses follow the rules of `Derives`, under any asker that answers as
`AskerSpec` says. -/

namespace Bindery

variable {p : Program}

namespace Ends.Reads

variable {σ α : Type} {excused : Fault → Prop} {x : α → Except Fault Bool}

theorem filterAuxM {list acc : List α} {s : σ} (h : ∀ a ∈ list, Yields (x a) fun _ => True) :
    Reads excused (list.filterAuxM (fun a => (liftM (x a) : EStateM Fault σ Bool)) acc) s fun kept =>
      ∀ a, a ∈ kept ↔ a ∈ acc ∨ a ∈ list ∧ x a = .ok true := by
  induction list generalizing acc with
  | nil => exact Reads.pure (by simp)
  | cons a rest ih =>
    obtain ⟨b, hb, -⟩ := h a (by simp)
    rw [List.filterAuxM]
    refine bind_reads (Reads.lift ⟨b, hb, rfl⟩) fun _ hb' => ?_
    subst hb'
    refine imp (ih fun a ha => h a (List.mem_cons_of_mem _ ha)) ?_
    rintro kept s' ⟨hs, hkept⟩
    refine ⟨hs, fun c => (hkept c).trans ?_⟩
    cases b <;> grind

theorem filterM {list : List α} {s : σ} (h : ∀ a ∈ list, Yields (x a) fun _ => True) :
    Reads excused (list.filterM fun a => (liftM (x a) : EStateM Fault σ Bool)) s fun kept =>
      ∀ a, a ∈ kept ↔ a ∈ list ∧ x a = .ok true := by
  refine bind_reads (filterAuxM h) fun kept hkept => Reads.pure fun a => ?_
  rw [List.mem_reverse, hkept]
  simp

end Ends.Reads

namespace Program.Formed

variable [Endless] (formed : p.Formed) {ask : Asker} (spec : AskerSpec p ask) (f : Findings)
  {chain : Chain} (known : chain.Known p) {node : NodeId} (hnode : node < p.tree.size)

include formed spec in
theorem parameterType_steps {parameter : Nat} (h : parameter < p.symbols.size) :
    Steps (Stage p f) (p.parameterType ask parameter) (Ty.Known p) fun F t trace => trace = [] ∧
      ((∃ method data signature, p.symbols.containing? parameter = .ok (some method) ∧
        p.symbols.parameter? parameter = .ok (some data) ∧
        SeesSignature p F f method signature ∧ t = (signature.parameters[data.ordinal]?).getD .error) ∨
      t = .error ∧ (p.symbols.containing? parameter = .ok none ∨
        p.symbols.parameter? parameter = .ok none)) := by
  refine Steps.bind_lift (formed.table.containing?_yields h) fun method hmethod hlt => ?_
  refine Steps.bind_lift (.map ((formed.table.kind_yields h).imp fun _ _ => trivial))
    fun data hdata (_ : True) => ?_
  cases method with
  | none =>
    exact .pure Ty.known_error fun F => ⟨rfl, .inr ⟨rfl, .inl hmethod⟩⟩
  | some method =>
    cases data with
    | none => exact .pure Ty.known_error fun F => ⟨rfl, .inr ⟨rfl, .inr hdata⟩⟩
    | some data =>
      refine Steps.bind_answer (spec.sees f (hlt method rfl)) fun signature hsignature => ?_
      refine .pure ?_ fun F hsees =>
        ⟨rfl, .inl ⟨method, data, signature.value, hmethod, hdata, hsees, rfl⟩⟩
      cases ht : signature.value.parameters[data.ordinal]? with
      | none => exact Ty.known_error
      | some t => exact hsignature.1 t (List.mem_of_getElem? ht)

include formed hnode in
theorem bindLocal_steps {name : String} {target : Local}
    (hlookup : chain.lookup p name node = .ok (.localVariable target)) :
    Steps (Stage p f) (p.bindLocal chain target node) (Expr.Known p) fun F e trace =>
      Derives p F f (.name chain name node e) trace := by
  unfold bindLocal
  split
  · exact formed.refuse_steps hnode hnode rfl _ .refusedName
  · next hprogress =>
    refine Steps.bind_findings fun g hg => ?_
    refine .pure (Expr.known_plain hnode ?_ trivial) fun F hF => ?_
    · cases ht : g.localType? target with
      | none => exact Ty.known_error
      | some t => exact hg.sound.localTypes ht
    · have hprogress := eq_false_of_ne_true hprogress
      have hvariable : (target.isConstant = true → g.localConstant? target = none) →
          Derives p F f (.name chain name node (.mk (.localVariable target)
            ((g.localType? target).getD .error) none node)) [] := fun h =>
        .localVariable hlookup hprogress h hg.grows hF
      split
      · next hconstant =>
        cases hvalue : g.localConstant? target with
        | none => exact hvariable fun _ => hvalue
        | some c =>
          have hlasting := hg.sound.localConstants (Option.join_eq_some_iff.1 hvalue)
          obtain ⟨_, _, hhere⟩ := hlasting g (.refl g)
          obtain ⟨t, ht⟩ := hhere.localType
          obtain ⟨_, _, hderived⟩ := hlasting F hF
          have htype : g.localType? target = some t := ht
          rw [htype]
          exact .constantLocal hlookup hprogress hconstant htype hvalue hg.grows hF hderived
      · next hconstant => exact hvariable fun h => absurd h hconstant

include spec in
theorem constantOfField_steps {field : Nat} (h : field < p.symbols.size) :
    Steps (Stage p f) (constantOfField ask chain field) (fun _ => True) fun F constant trace =>
      (∃ c known g trace', constant = some c ∧ trace = [] ∧
        F.constants.get? field = some known ∧ known.value = .value c ∧
        Derives p F g (.constant field (.value c)) trace') ∨
      constant = none ∧ trace = [.badConstant] ∧
        ((∃ known, F.constants.get? field = some known ∧ known.value = .bad) ∨
          f.constants.get? field = none ∧ chain.tracker?.isSome = true) := by
  refine Steps.bind_answer (spec.fieldConstant f chain.tracker? h) fun found _ => ?_
  dsimp only
  cases hconstant : found.bind (·.value.constant?) with
  | some c =>
    obtain ⟨known, rfl, hvalue⟩ := Option.bind_eq_some_iff.1 hconstant
    have hvalue : known.value = .value c := by
      cases hk : known.value <;> simp_all [FieldConstant.constant?]
    refine .pure trivial fun F hsees => ?_
    rcases hsees with ⟨known', g, trace, ⟨rfl⟩, hpublished, h⟩ | ⟨hnone, -⟩
    · exact .inl ⟨c, known, g, trace, rfl, rfl, hpublished, hvalue, hvalue ▸ h⟩
    · simp at hnone
  | none =>
    refine Steps.bind Steps.markBadConstant fun _ _ => .pure trivial ?_
    rintro F _ rfl hsees
    refine .inr ⟨rfl, rfl, ?_⟩
    rcases hsees with ⟨known, g, trace, rfl, hpublished, h⟩ | ⟨-, hunknown⟩
    · refine .inl ⟨known, hpublished, ?_⟩
      cases hk : known.value <;> simp_all [FieldConstant.constant?]
    · exact .inr hunknown

include formed spec known hnode in
theorem bindMembers_steps {receiver : Option Expr} {found : List SymbolId}
    (hfound : ∀ s : Nat, s ∈ found → s < p.symbols.size) (name : String) :
    Steps (Stage p f) (p.bindMembers ask chain receiver found name node) (Expr.Known p)
      fun F e trace => Derives p F f (.members chain receiver found node e) trace := by
  unfold bindMembers
  refine Steps.bind_reads (fun s => Ends.Reads.filterM fun symbol hsymbol =>
    formed.isAccessible_yields known (hfound symbol hsymbol)) fun accessible haccessible => ?_
  cases accessible with
  | nil => exact formed.refuse_steps hnode hnode rfl _ .refusedMember
  | cons first rest =>
    have hin : ∀ a ∈ first :: rest, a ∈ found := fun a ha => ((haccessible a).1 ha).1
    have hfirst : first ∈ found := hin first (by simp)
    have hlt := hfound first hfirst
    refine Steps.bind_lift (formed.table.kind_yields hlt) fun kind hkind _ => ?_
    cases kind with
    | method data =>
      refine Steps.bind_reads (fun s => Ends.Reads.filterM fun a ha =>
        (formed.table.ask_yields (hfound a (hin a ha))).imp fun _ _ => trivial)
        fun methods hmethods => ?_
      have hself : p.symbols.isMethod first = .ok true := by
        obtain ⟨s, hs, hk⟩ := SymbolTable.exists_of_map_fetch hkind
        exact (SymbolTable.map_fetch _ hs).trans (by simp [Symbol.isMethod, hk])
      have hall : ∀ m ∈ methods, m ∈ found ∧ p.symbols.isMethod m = .ok true := fun m hm =>
        ⟨hin m ((hmethods m).1 hm).1, ((hmethods m).1 hm).2⟩
      refine .pure ⟨hnode, Ty.known_void, fun m hm => hfound m (hall m hm).1⟩ fun F =>
        .methods ?_ hall
      exact List.ne_nil_of_mem ((hmethods first).2 ⟨List.mem_cons_self, hself⟩)
    | field data =>
      refine Steps.bind_answer (spec.fieldType f _ hlt) fun type htype => ?_
      split
      · next hconstant =>
        refine Steps.bind (constantOfField_steps spec f hlt) fun constant _ => ?_
        rw [Bool.and_eq_true] at hconstant
        refine .pure ⟨hnode, htype, hlt⟩ fun F trace hsees hpublished => ?_
        rcases hsees with ⟨c, known, g, trace', rfl, rfl, hknown, hvalue, h⟩ | ⟨rfl, rfl, hbad⟩
        · exact .constantField hfirst hkind hconstant.1 hpublished hknown hvalue h
        · exact .badConstantField hfirst hkind hconstant.1 hpublished hbad
      · next hconstant =>
        refine .pure ⟨hnode, htype, hlt⟩ fun F hpublished =>
          .field hfirst hkind ?_ hpublished
        cases hc : data.isConstant with
        | false => exact .inl rfl
        | true =>
          rw [hc, Bool.true_and, List.isEmpty_iff] at hconstant
          exact .inr hconstant
    | type data =>
      exact .pure (Expr.known_plain hnode hlt trivial) fun F => .typeMember hfirst
    | global _ | parameter _ | templateParameter _ =>
      exact formed.refuse_steps hnode hnode rfl _ .refusedMember

include formed spec known hnode in
theorem bindName_steps (name : String) :
    Steps (Stage p f) (p.bindName ask chain name node) (Expr.Known p) fun F e trace =>
      Derives p F f (.name chain name node e) trace := by
  unfold bindName
  refine Steps.bind_lift (formed.lookup_yields known name hnode) fun found hlookup hfound => ?_
  cases found with
  | localVariable target => exact formed.bindLocal_steps f hnode hlookup
  | declaredLater target => exact formed.refuse_steps hnode hnode rfl _ .refusedName
  | localFunction function =>
    exact .pure ⟨hnode, Ty.known_void, hfound⟩ fun F => .localFunction hlookup
  | parameter parameter =>
    refine Steps.bind_answer (formed.parameterType_steps spec f hfound) fun t ht => ?_
    refine .pure (Expr.known_plain hnode ht trivial) fun F h => ?_
    rcases h with ⟨method, data, signature, hmethod, hdata, hsees, rfl⟩ | ⟨rfl, hstray⟩
    · exact .parameter hlookup hmethod hdata hsees
    · exact .strayParameter hlookup hstray
  | templateParameter parameter =>
    refine Steps.bind_answer (spec.constantParameterType f hfound) fun type htype => ?_
    cases type with
    | some t =>
      exact .pure (Expr.known_plain hnode (htype t rfl) trivial) fun F h =>
        .templateValue hlookup h
    | none => exact .pure (Expr.known_plain hnode hfound trivial) fun F _ => .templateType hlookup
  | symbols found =>
    exact (formed.bindMembers_steps spec f known hnode hfound name).mono
      fun F e trace h => .memberName hlookup h
  | empty =>
    dsimp only
    cases hprimitive : Primitive.ofName? name with
    | some primitive =>
      exact .pure (Expr.known_plain hnode (Ty.known_primitive _) trivial) fun F =>
        .primitiveName hlookup hprimitive
    | none => exact formed.refuse_steps hnode hnode rfl _ .refusedName

include formed spec known hnode in
theorem bindMemberAccess_steps {receiver : Expr} (hreceiver : receiver.Known p) (name : String) :
    Steps (Stage p f) (p.bindMemberAccess ask chain receiver name node) (Expr.Known p)
      fun F e trace => Derives p F f (.access chain receiver name node e) trace := by
  unfold bindMemberAccess
  split
  · next herror => exact .pure (Expr.known_error hnode) fun F => .brokenAccess herror
  · next herror =>
    cases hcontainer : receiver.type.definition? with
    | none =>
      exact Steps.bind_lift (formed.display_yields hreceiver.2.1) fun _ _ _ =>
        formed.refuse_steps hnode hnode rfl _ .refusedAccess
    | some container =>
      refine Steps.bind_lift (formed.table.lookupInHierarchy_yields name
        (hreceiver.2.1.definition? hcontainer)) fun found hfound hlt => ?_
      dsimp only
      by_cases hempty : found.isEmpty = true
      · rw [if_pos hempty]
        exact Steps.bind_lift (formed.display_yields hreceiver.2.1) fun _ _ _ =>
          formed.refuse_steps hnode hnode rfl _ .refusedAccess
      · rw [if_neg hempty]
        exact (formed.bindMembers_steps spec f known hnode hlt name).mono
          fun F e trace h => .access (eq_false_of_ne_true herror) hcontainer hfound h

end Program.Formed
end Bindery
