import Bindery.Compilation
import Bindery.Proofs.MemberSteps

/-! # Binding a compilation

Declarations and constants come first, then all code.  The bodies of methods have no node in common,
so each local is declared once, unless a method has the name of the entry method and its body is
bound in place of the global statements (`EntryIsScript`). -/

namespace Bindery

variable {p : Program}

/-! ### Bodies have nothing in common -/

/-- A node whose parent holds no statements is reached from itself only. -/
theorem Within.eq_of_parent (linked : p.tree.Linked) {a b parent : NodeId} {kind : Node}
    (h : Within p a b) (hparent : p.tree.node? parent = some kind) (hchild : b ∈ kind.children)
    (hkind : kind.holdsCode = false) : b = a := by
  cases h with
  | refl => rfl
  | step _ hnode hcode hchild' =>
    obtain rfl := linked.parent_unique hnode hparent hchild' hchild
    obtain rfl := Option.mem_unique hnode hparent
    simp [hkind] at hcode

/-- Where the code of the symbol that is declared at `n` starts. -/
def StartsAt (p : Program) (n root : NodeId) : Prop :=
  n = p.tree.root ∧ root = p.tree.root ∨
    ∃ kind, p.tree.node? n = some kind ∧ root ∈ kind.children ∧ kind.holdsCode = false

theorem Tree.child_lt_root {t : Tree} {n child : Nat} {kind : Node} (hnode : t.node? n = some kind)
    (hchild : child ∈ kind.children) : child < t.root :=
  Nat.lt_of_lt_of_le (t.child_lt hnode hchild) (Nat.le_sub_one_of_lt (Tree.lt_size_of_node? hnode))

namespace StartsAt

variable {n n' root root' : NodeId}

theorem eq_of_within (linked : p.tree.Linked) (h : StartsAt p n root) (h' : StartsAt p n' root')
    (hwithin : Within p root root') : n = n' := by
  rcases h' with ⟨hn', rfl⟩ | ⟨kind', hnode', hchild', hkind'⟩
  · rcases h with ⟨hn, -⟩ | ⟨kind, hnode, hchild, -⟩
    · exact hn.trans hn'.symm
    · exact absurd hwithin.under.le (Nat.not_le_of_lt (Tree.child_lt_root hnode hchild))
  · obtain rfl := hwithin.eq_of_parent linked hnode' hchild' hkind'
    rcases h with ⟨-, rfl⟩ | ⟨kind, hnode, hchild, -⟩
    · exact absurd (Tree.child_lt_root hnode' hchild') (Nat.lt_irrefl _)
    · exact linked.parent_unique hnode hnode' hchild hchild'

theorem apart (linked : p.tree.Linked) (h : StartsAt p n root) (h' : StartsAt p n' root')
    (hne : n ≠ n') : Apart p root root' := by
  intro m hm hm'
  rcases linked.under_total hm.under hm'.under with hunder | hunder
  · exact hne (h.eq_of_within linked h' (hm.between linked hunder hm'.under))
  · exact hne (h'.eq_of_within linked h (hm'.between linked hunder hm.under)).symm

end StartsAt

def SymbolKind.hasBody : SymbolKind → Bool
  | .method data => data.body.isSome
  | _ => false

namespace Program.Formed

variable (formed : p.Formed) {i : Nat} {s : Symbol} {root : NodeId}
  (hs : p.symbols.symbols[i]? = some s)
include formed hs

theorem startsAt_of_mem (h : root ∈ s.kind.nodes) :
    ∃ n, s.declaration = some n ∧ StartsAt p n root := by
  rcases (formed.table.entry hs).declared.cases with
    ⟨hnil, -⟩ | ⟨n, node, hn, hnode, hdeclares, hchildren⟩
  · simp [hnil] at h
  · refine ⟨n, hn, .inr ⟨node, hnode, hchildren root h, ?_⟩⟩
    cases node <;> simp_all [Node.isDeclaration, Node.holdsCode, Node.isStatement]

theorem startsAt (h : s.kind.codeRoot? p.tree.root = some root) :
    ∃ n, s.declaration = some n ∧ StartsAt p n root := by
  cases hkind : s.kind with
  | method data =>
    rw [hkind, SymbolKind.codeRoot?] at h
    split at h
    · next hentry =>
      exact ⟨_, (formed.table.entry hs).declared.entry (by rw [hkind]; exact hentry),
        .inl ⟨rfl, (Option.some.inj h).symm⟩⟩
    · exact formed.startsAt_of_mem hs (by simp [hkind, SymbolKind.nodes, h])
  | _ => simp [hkind, SymbolKind.codeRoot?] at h

/-- The code of two symbols has no node in common. -/
theorem codeRoots_apart {j : Nat} {s' : Symbol} (hs' : p.symbols.symbols[j]? = some s')
    (hij : i ≠ j) {root' : NodeId} (h : s.kind.codeRoot? p.tree.root = some root)
    (h' : s'.kind.codeRoot? p.tree.root = some root') : Apart p root root' := by
  obtain ⟨n, hn, hstarts⟩ := formed.startsAt hs h
  obtain ⟨n', hn', hstarts'⟩ := formed.startsAt hs' h'
  refine hstarts.apart formed.linked hstarts' ?_
  rintro rfl
  exact hij (formed.table.declared_once hs hs' hn hn')

theorem not_isEntry_of_hasBody {data : MethodData} (hkind : s.kind = .method data)
    (h : s.kind.hasBody = true) : data.isEntry = false := by
  rw [hkind] at h
  obtain ⟨body, hbody⟩ := Option.isSome_iff_exists.1 h
  exact formed.isEntry_eq_false hs hkind hbody

end Program.Formed

/-- Code that was bound leaves the locals of other code without types. -/
theorem Unbound.of_walk {f g : Findings} {area : NodeId → Prop} {root : NodeId}
    (hstart : ∀ {key : LocalKey} {t : Ty}, f.localTypes.get? key = some t → key.IsParameter p)
    (hw : Walk p area f g) (harea : ∀ n, area n → ¬ Within p root n) : Unbound p g root := by
  intro n hn name type isConstant initializer hnode store
  refine Option.eq_none_iff_forall_ne_some.2 fun t ht => ?_
  rcases (hw.locals ht).imp_left hstart with ⟨_, _, _, hkey⟩ | ⟨_, _, _, hkey⟩ | hkey
  · simp [hnode] at hkey
  · simp [hnode] at hkey
  · exact harea n hkey hn

/-! ### Parts -/

/-- What a symbol declares is published, with these diagnostics. -/
def DeclaredIn (F : Findings) (s : Symbol) (diagnostics : DiagnosticQueue) : Prop :=
  match s.kind with
  | .method _ => ∃ known, F.signatures.get? s.id = some known ∧ known.diagnostics = diagnostics
  | .field _ => ∃ known, F.fieldTypes.get? s.id = some known ∧ known.diagnostics = diagnostics
  | .parameter data => data.defaultValue.isSome = true →
      ∃ known, F.defaults.get? s.id = some known ∧ known.diagnostics = diagnostics
  | _ => True

namespace Program.Formed

variable (formed : p.Formed) {f : Findings}
include formed

theorem bindDeclaration_steps (hprogress : f.signaturesInProgress = []) {i : Nat} {s : Symbol}
    (hs : p.symbols.symbols[i]? = some s) :
    Steps (Stage p f) (Compilation.bindDeclaration p s) (fun _ => True) fun F diagnostics trace =>
      trace = [] ∧ DeclaredIn F s diagnostics := by
  have hlt : s.id < p.symbols.size := by
    rw [(formed.table.entry hs).id_eq]
    exact SymbolTable.lt_of_getElem? hs
  unfold Compilation.bindDeclaration DeclaredIn
  cases s.kind with
  | global => exact .pure trivial fun _ => ⟨rfl, trivial⟩
  | templateParameter => exact .pure trivial fun _ => ⟨rfl, trivial⟩
  | type data =>
    dsimp only
    split
    · exact .pure trivial fun _ => ⟨rfl, trivial⟩
    · refine Steps.bind (formed.bindTemplateParameters_steps f hlt) fun _ _ => .pure trivial ?_
      rintro F _ rfl
      exact ⟨rfl, trivial⟩
  | method data =>
    refine Steps.bind_answer (formed.answer_spec.signature f hlt) fun known _ => .pure trivial ?_
    exact fun F hknown => ⟨rfl, known, hknown.2 (by simp [hprogress]), rfl⟩
  | field data =>
    refine Steps.bind_answer (formed.answer_spec.fieldType f [] hlt) fun known _ => .pure trivial ?_
    exact fun F hknown => ⟨rfl, known, hknown, rfl⟩
  | parameter data =>
    dsimp only
    split
    · refine Steps.bind_answer (formed.defaultOf_steps f hprogress hlt) fun known _ => .pure trivial ?_
      exact fun F hknown => ⟨rfl, fun _ => ⟨known, hknown, rfl⟩⟩
    · next hnone => exact .pure trivial fun _ => ⟨rfl, fun h => absurd h hnone⟩

theorem evaluateConstant_answer {field : Nat} (h : field < p.symbols.size) :
    Steps (Stage p f) (Compilation.evaluateConstant p field) (fun _ => True) fun F diagnostics trace =>
      trace = [] ∧ ∃ known, F.constants.get? field = some known ∧
        known.diagnostics = diagnostics := by
  refine Steps.bind_answer (formed.answer_spec.fieldConstant f none h) fun found _ => ?_
  cases found with
  | none =>
    refine .pure trivial fun F hsees => ?_
    rcases hsees with ⟨_, _, _, hknown, -⟩ | ⟨-, -, htracker⟩
    · simp at hknown
    · simp at htracker
  | some known =>
    refine .pure trivial fun F hsees => ⟨rfl, ?_⟩
    rcases hsees with ⟨_, _, _, ⟨rfl⟩, hknown, -⟩ | ⟨hnone, -⟩
    · exact ⟨known, hknown, rfl⟩
    · simp at hnone

end Program.Formed

variable (p) in
/-- The code of a symbol was bound. -/
def BindsCode (once : Prop) (F f : Findings) : Compilation.BoundCode → Trace → Prop
  | .body method block, trace => BindsBody p once F f method block trace
  | .initializer field value, trace => BindsInitializer p F f field value trace

theorem Program.Formed.bindCode_steps (formed : p.Formed) (once : Prop) {i : Nat} {s : Symbol}
    (hs : p.symbols.symbols[i]? = some s) {state : BindState} (hsound : Sound p state.findings)
    (hunbound : once → ∀ root, s.kind.codeRoot? p.tree.root = some root →
      Unbound p state.findings root) :
    StepsAt (Walk p (fun n => s.kind.hasBody = true ∧ InCode p s.kind n) state.findings)
      (Compilation.bindCode p s) state (fun _ => True) fun F result trace => trace = [] ∧
        ∀ e, result = some e → ∃ g inner, state.findings.Grows g ∧
          e.diagnostics.items = Trace.diagnostics inner ∧ BindsCode p once F g e.value inner := by
  have nothing : ∀ {area : NodeId → Prop}, StepsAt (Walk p area state.findings)
      (Pure.pure (none : Option (Evaluated Compilation.BoundCode))) state (fun _ => True)
      fun F result trace => trace = [] ∧ ∀ e, result = some e → ∃ g inner,
        state.findings.Grows g ∧ e.diagnostics.items = Trace.diagnostics inner ∧
          BindsCode p once F g e.value inner :=
    .pure (.refl hsound) trivial fun _ _ => ⟨rfl, by simp⟩
  have hid := (formed.table.entry hs).id_eq
  unfold Compilation.bindCode
  split
  · next data hkind =>
    split
    · next hbody =>
      rw [hid]
      refine (formed.bindBody_steps hs hsound hunbound).bind ?_
      intro result s' first _ hs' _ _ hR
      refine .pure (hs'.mono fun n hn => ⟨?_, hn⟩) trivial fun F hF => ?_
      · rw [hkind]
        exact hbody
      · obtain ⟨rfl, -, hbinds⟩ := hR F hF
        refine ⟨rfl, fun e he => ?_⟩
        obtain ⟨b, hb, rfl⟩ := Option.map_eq_some_iff.1 he
        refine hbinds (fun data' hkind' hentry => ?_) b hb
        have hnot := formed.not_isEntry_of_hasBody hs hkind' (by rw [hkind]; exact hbody)
        simp [hentry] at hnot
    · exact nothing
  · next data hkind =>
    split
    · rw [hid]
      refine (formed.bindInitializer_steps state.findings (SymbolTable.lt_of_getElem? hs) state
        hsound.stage).bind ?_
      intro result s' first _ hs' _ _ hR
      refine .pure ((Walk.refl hsound).stage hs') trivial fun F hF => ?_
      obtain ⟨rfl, hbinds⟩ := hR F hF
      refine ⟨rfl, fun e he => ?_⟩
      obtain ⟨b, hb, rfl⟩ := Option.map_eq_some_iff.1 he
      obtain ⟨inner, hinner, hbinds⟩ := hbinds b hb
      exact ⟨state.findings, inner, .refl _, hinner, hbinds⟩
    · exact nothing
  · exact nothing

/-! ### All code -/

variable (p) in
/-- Code was bound after `start`, and the diagnostics hold what was said about it. -/
def BoundAfter (once : Prop) (start F : Findings) (diagnostics : DiagnosticQueue)
    (code : Compilation.BoundCode) : Prop :=
  ∃ f trace, start.Grows f ∧ (∀ d ∈ Trace.diagnostics trace, d ∈ diagnostics.items) ∧
    BindsCode p once F f code trace

variable {code : Compilation.BoundCode}

theorem BoundAfter.mono {once : Prop} {start F : Findings} {q q' : DiagnosticQueue}
    (h : BoundAfter p once start F q code)
    (hq : ∀ d ∈ q.items, d ∈ q'.items) : BoundAfter p once start F q' code := by
  obtain ⟨f, trace, hf, htrace, hcode⟩ := h
  exact ⟨f, trace, hf, fun d hd => hq d (htrace d hd), hcode⟩

/-- What was bound now, with its diagnostics. -/
theorem BoundAfter.of_append {once : Prop} {start F f : Findings}
    {q new : DiagnosticQueue} {trace : Trace} (hf : start.Grows f)
    (htrace : new.items = Trace.diagnostics trace) (h : BindsCode p once F f code trace) :
    BoundAfter p once start F (q.append new) code :=
  ⟨f, trace, hf, fun _ hd => List.mem_append_right _ (htrace ▸ hd), h⟩

variable (p) in
/-- All code so far was bound. -/
structure PartsBound (once : Prop) (start F : Findings) (parts : Compilation.CodeParts) : Prop where
  bodies : ∀ entry ∈ parts.bodies,
    BoundAfter p once start F parts.diagnostics (.body entry.1 entry.2)
  initializers : ∀ entry ∈ parts.initializers,
    BoundAfter p once start F parts.diagnostics (.initializer entry.1 entry.2)
  statements : parts.statements = [] ∨ ∃ method block, p.symbols.entry? = some method ∧
    block.statements = parts.statements ∧
    BoundAfter p once start F parts.diagnostics (.body method block)

theorem Compilation.mem_insertBody {bodies : List (SymbolId × Block)} {method : SymbolId}
    {block : Block} {entry : SymbolId × Block} (h : entry ∈ insertBody bodies method block) :
    entry = (method, block) ∨ entry ∈ bodies := by
  unfold insertBody at h
  split at h
  · obtain ⟨other, hother, rfl⟩ := List.mem_map.1 h
    split
    · exact .inl rfl
    · exact .inr hother
  · rcases List.mem_append.1 h with h | h
    · exact .inr h
    · exact .inl (List.mem_singleton.1 h)

namespace PartsBound

variable {once : Prop} {start F : Findings} {parts : Compilation.CodeParts}

theorem empty : PartsBound p once start F {} := ⟨by simp, by simp, .inl rfl⟩

variable (h : PartsBound p once start F parts)
include h

/-- More diagnostics. -/
theorem mono {q : DiagnosticQueue} (hq : ∀ d ∈ parts.diagnostics.items, d ∈ q.items) :
    PartsBound p once start F { parts with diagnostics := q } := by
  refine ⟨fun e he => (h.bodies e he).mono hq, fun e he => (h.initializers e he).mono hq, ?_⟩
  exact h.statements.imp_right fun ⟨method, block, hmethod, hblock, hbound⟩ =>
    ⟨method, block, hmethod, hblock, hbound.mono hq⟩

theorem append (q : DiagnosticQueue) :
    PartsBound p once start F { parts with diagnostics := parts.diagnostics.append q } :=
  h.mono fun _ hd => List.mem_append_left _ hd

theorem insertBody {method : SymbolId} {block : Block}
    (hbody : BoundAfter p once start F parts.diagnostics (.body method block)) :
    PartsBound p once start F
      { parts with bodies := Compilation.insertBody parts.bodies method block } := by
  refine ⟨fun e he => ?_, h.initializers, h.statements⟩
  rcases Compilation.mem_insertBody he with rfl | he
  · exact hbody
  · exact h.bodies e he

theorem add {f : Findings} {code : Evaluated Compilation.BoundCode} {trace : Trace}
    (hf : start.Grows f) (htrace : code.diagnostics.items = Trace.diagnostics trace)
    (hcode : BindsCode p once F f code.value trace) : PartsBound p once start F (parts.add code) := by
  have hnew := BoundAfter.of_append (q := parts.diagnostics) hf htrace hcode
  unfold Compilation.CodeParts.add
  split
  · next method block hvalue =>
    rw [hvalue] at hnew
    exact (h.append _).insertBody hnew
  · next field value hvalue =>
    rw [hvalue] at hnew
    refine ⟨(h.append code.diagnostics).bodies, fun e he => ?_, (h.append code.diagnostics).statements⟩
    rcases List.mem_append.1 he with he | he
    · exact (h.append code.diagnostics).initializers e he
    · rw [List.mem_singleton.1 he]
      exact hnew

theorem addEntry {f : Findings} {entry : SymbolId} {body : Evaluated Block} {trace : Trace}
    (hf : start.Grows f) (htrace : body.diagnostics.items = Trace.diagnostics trace)
    (hbody : BindsBody p once F f entry body.value trace) (hentry : p.symbols.entry? = some entry)
    (script : Bool) :
    PartsBound p once start F (parts.addEntry script entry body) := by
  have hnew : BoundAfter p once start F (parts.diagnostics.append body.diagnostics)
      (.body entry body.value) := .of_append hf htrace hbody
  unfold Compilation.CodeParts.addEntry
  dsimp only
  split
  · exact ⟨(h.append _).bodies, (h.append _).initializers,
      .inr ⟨entry, body.value, hentry, rfl, hnew⟩⟩
  · exact (h.append _).insertBody hnew

end PartsBound

variable (p) in
/-- The code of the entry method are the global statements. -/
def EntryIsScript : Prop := ∀ entry data, p.symbols.entry? = some entry →
  p.symbols.method? entry = .ok (some data) → data.isEntry = true

variable (p) in
/-- The nodes of the bodies of symbols. -/
def InBodies (done : List Symbol) (n : NodeId) : Prop :=
  ∃ s ∈ done, s.kind.hasBody = true ∧ InCode p s.kind n

namespace Program.Formed

variable (formed : p.Formed)
include formed

/-- The code of one symbol after that of others. -/
theorem unbound_of_bodies {start g : Findings}
    (hstart : ∀ {key : LocalKey} {t : Ty}, start.localTypes.get? key = some t → key.IsParameter p)
    {done : List Symbol} (hw : Walk p (InBodies p done) start g) {i : Nat} {s : Symbol}
    (hs : p.symbols.symbols[i]? = some s)
    (hdone : ∀ s' ∈ done, s'.kind.hasBody = true → ∃ j, p.symbols.symbols[j]? = some s' ∧ i ≠ j)
    {root : NodeId} (hroot : s.kind.codeRoot? p.tree.root = some root) : Unbound p g root := by
  refine .of_walk hstart hw ?_
  rintro n ⟨s', hs', hbody, root', hroot', hn⟩ hn'
  obtain ⟨j, hj, hij⟩ := hdone s' hs' hbody
  exact formed.codeRoots_apart hs hj hij hroot hroot' n hn' hn

theorem bindSymbols_steps (once : Prop) {start : Findings}
    (hstart : ∀ {key : LocalKey} {t : Ty}, start.localTypes.get? key = some t → key.IsParameter p)
    (done : List Symbol) {rest : List Symbol} (hlist : p.symbols.symbols.toList = done ++ rest)
    {parts : Compilation.CodeParts} {state : BindState}
    (hw : Walk p (InBodies p done) start state.findings)
    (hparts : Lasting state.findings fun F => PartsBound p once start F parts) :
    StepsAt (Walk p (InBodies p p.symbols.symbols.toList) start)
      (rest.foldlM (fun parts symbol => return parts.addSome (← Compilation.bindCode p symbol)) parts)
      state (fun _ => True) fun F parts' trace => trace = [] ∧ PartsBound p once start F parts' := by
  induction rest generalizing done parts state with
  | nil =>
    rw [List.append_nil] at hlist
    rw [hlist]
    exact .pure hw trivial fun F hF => ⟨rfl, hparts F hF⟩
  | cons s rest ih =>
    have index : ∀ {k : Nat} {s' : Symbol}, (done ++ s :: rest)[k]? = some s' →
        p.symbols.symbols[k]? = some s' := by
      intro k s' hk
      rw [← hlist] at hk
      simpa using hk
    have hs : p.symbols.symbols[done.length]? = some s := index (by simp)
    rw [List.foldlM_cons, bind_assoc]
    refine (formed.bindCode_steps once hs hw.sound fun _ root hroot =>
      formed.unbound_of_bodies hstart hw hs ?_ hroot).bind ?_
    · intro s' hs' _
      obtain ⟨j, hj⟩ := List.mem_iff_getElem?.1 hs'
      have hlt : j < done.length := (List.getElem?_eq_some_iff.1 hj).1
      refine ⟨j, index ?_, by omega⟩
      rw [List.getElem?_append_left hlt, hj]
    · intro result s' first _ hs' hgrows _ hR
      have hw' : Walk p (InBodies p (done ++ [s])) start s'.findings := by
        refine (hw.mono ?_).trans (hs'.mono ?_)
        · rintro n ⟨s', hs', hn⟩
          exact ⟨s', List.mem_append_left _ hs', hn⟩
        · exact fun n hn => ⟨s, by simp, hn⟩
      have hlist' : p.symbols.symbols.toList = (done ++ [s]) ++ rest := by simp [hlist]
      have hparts' : Lasting s'.findings fun F => PartsBound p once start F (parts.addSome result) := by
        intro F hF
        cases result with
        | none => exact hparts F (hgrows.trans hF)
        | some code =>
          obtain ⟨g, inner, hg, hinner, hcode⟩ := (hR F hF).2 code rfl
          exact (hparts F (hgrows.trans hF)).add (hw.grows.trans hg) hinner hcode
      refine (ih _ hlist' hw' hparts').imp (fun _ h => h) ?_
      rintro F parts' _ hF ⟨rfl, hparts'⟩
      exact ⟨by simp [(hR F hF).1], hparts'⟩

end Program.Formed

variable (p) in
/-- Everything that is declared is published, and the diagnostics hold what was said about it. -/
structure Settled (diagnostics : DiagnosticQueue) (f : Findings) : Prop where
  progress : f.signaturesInProgress = []
  declared : ∀ {i : Nat} {s : Symbol}, p.symbols.symbols[i]? = some s →
    ∃ q, DeclaredIn f s q ∧ ∀ d ∈ q.items, d ∈ diagnostics.items
  constants : ∀ field ∈ p.symbols.constantFields, ∃ known, f.constants.get? field = some known ∧
    ∀ d ∈ known.diagnostics.items, d ∈ diagnostics.items

namespace Compilation

variable (c : Compilation) (formed : c.program.Formed)

include formed in
theorem bindAllCode_steps {state : BindState} (hsound : Sound c.program state.findings)
    (hstart : ∀ {key : LocalKey} {t : Ty}, state.findings.localTypes.get? key = some t →
      key.IsParameter c.program) :
    StepsAt (Sound c.program) c.bindAllCode state (fun _ => True) fun F parts trace =>
      trace = [] ∧ PartsBound c.program (EntryIsScript c.program) state.findings F parts := by
  refine (formed.bindSymbols_steps (EntryIsScript c.program) hstart [] rfl (.refl hsound)
    fun _ _ => .empty).bind ?_
  intro parts s' first _ hs' hgrows _ hparts
  have hfirst : first = [] := (hparts s'.findings (.refl _)).1
  unfold bindEntry
  cases hentry : c.program.symbols.entry? with
  | none =>
    refine .pure hs'.sound trivial fun F hF => ?_
    exact ⟨by simp [hfirst], (hparts F hF).2⟩
  | some entry =>
    obtain ⟨s, hs⟩ := SymbolTable.exists_of_lt (Program.entry?_lt formed hentry)
    have hunbound : EntryIsScript c.program → ∀ root,
        s.kind.codeRoot? c.program.tree.root = some root → Unbound c.program s'.findings root := by
      intro hscript root hroot
      refine formed.unbound_of_bodies hstart hs' hs (fun s₁ hs₁ hbody => ?_) hroot
      obtain ⟨j, hj⟩ := List.mem_iff_getElem?.1 hs₁
      have hj : c.program.symbols.symbols[j]? = some s₁ := by simpa using hj
      refine ⟨j, hj, ?_⟩
      rintro rfl
      obtain rfl := Option.mem_unique hs hj
      cases hkind : s.kind with
      | method data =>
        have hdata : c.program.symbols.method? entry = .ok (some data) := by
          rw [Program.method?_eq hs, hkind]
          rfl
        have := formed.not_isEntry_of_hasBody hs hkind hbody
        rw [hscript entry data hentry hdata] at this
        simp at this
      | _ => simp [hkind, SymbolKind.hasBody] at hbody
    dsimp only
    refine (formed.bindBody_steps hs hs'.sound hunbound).bind ?_
    intro result s'' second _ hs'' hgrows' _ hR
    cases result with
    | none =>
      refine .pure hs''.sound trivial fun F hF => ?_
      exact ⟨by simp [hfirst, (hR F hF).1], (hparts F (hgrows'.trans hF)).2⟩
    | some body =>
      refine .pure hs''.sound trivial fun F hF => ?_
      obtain ⟨rfl, -, hbinds⟩ := hR F hF
      obtain ⟨g, inner, hg, hinner, hbody⟩ := hbinds (fun _ _ _ => hentry) body rfl
      refine ⟨by simp [hfirst], ?_⟩
      exact (hparts F (hgrows'.trans hF)).2.addEntry (hgrows.trans hg) hinner hbody
        hentry _

/-! ### The whole -/

include formed in
theorem selectEntryPoint_yields : Yields c.selectEntryPoint fun _ => True := by
  have parameterless : ∀ method : Nat, method < c.program.symbols.size →
      Yields ((·.isEmpty) <$> c.program.symbols.parameters method) fun _ => True :=
    fun method h => .map ((formed.table.parameters_yields h).imp fun _ _ => trivial)
  have complaint : ∀ (message : Message) (method : Nat), method < c.program.symbols.size →
      Yields (do
        let node ← c.program.declarationOrRoot method
        c.program.diagnostic node message [c.options.entryPoint]) fun _ => True := by
    intro message method h
    obtain ⟨s, hs⟩ := SymbolTable.exists_of_lt h
    refine .bind (formed.declarationOrRoot_yields hs) fun node hnode => ?_
    exact .bind (formed.span_yields hnode) fun _ _ => .pure trivial
  refine .bind (R := fun candidates => ∀ m ∈ candidates, m < c.program.symbols.size) ?_ ?_
  · refine (Yields.filterM fun m hm => ?_).imp fun kept hkept m hm =>
      formed.table.lookup_lt (hkept m hm)
    exact (formed.table.ask_yields (formed.table.lookup_lt hm)).imp fun _ _ => trivial
  · intro candidates hcandidates
    split
    · exact .pure trivial
    · exact .pure trivial
    · next first rest _ =>
      refine .bind (Yields.findM? fun m hm => parameterless m (hcandidates m hm)) fun found hfound => ?_
      refine .bind (Yields.filterM fun m hm => .map ((parameterless m (hcandidates m hm)).imp
        fun _ _ => trivial)) fun others hothers => ?_
      have hmain : found.getD first < c.program.symbols.size := by
        cases found with
        | none => exact hcandidates first (by simp)
        | some main => exact hcandidates main (hfound main rfl).1
      refine .bind (Yields.mapM (Q := fun _ _ => True) fun m hm =>
        complaint _ m (hcandidates m (hothers m hm))) fun _ _ => ?_
      refine .bind (Yields.mapM (Q := fun _ _ => True) fun m hm => complaint _ m ?_) fun _ _ =>
        .pure trivial
      split at hm
      · rw [List.mem_singleton.1 hm]
        exact hmain
      · simp at hm

include formed in
theorem globalsWhere_yields (select : SymbolKind → Bool) :
    Yields (c.globalsWhere select) fun _ => True := by
  refine .bind (formed.table.members_yields formed.table.size_pos) fun members hmembers => ?_
  refine (Yields.filterM fun m hm => ?_).imp fun _ _ => trivial
  exact .map ((formed.table.kind_yields (hmembers m hm)).imp fun _ _ => trivial)

/-- What is known of a global scope and of the findings it comes with. -/
structure Explained (scope : GlobalScope) (F : Findings) : Prop where
  program : scope.program = c.program
  code : ∃ start, start.Grows F ∧ Settled c.program scope.diagnostics start ∧
    PartsBound c.program (EntryIsScript c.program) start F
      ⟨scope.diagnostics, scope.bodies, scope.initializers, scope.statements⟩

variable {q : DiagnosticQueue}

theorem mem_foldl_push {d : Diagnostic} {list : List Diagnostic}
    (h : d ∈ q.items) : d ∈ (list.foldl (·.push ·) q).items := by
  induction list generalizing q with
  | nil => exact h
  | cons e rest ih => exact ih (List.mem_append_left _ h)

theorem mem_foldl_append {d : Diagnostic} {list : List DiagnosticQueue}
    (h : d ∈ q.items ∨ ∃ q' ∈ list, d ∈ q'.items) : d ∈ (list.foldl (·.append ·) q).items := by
  induction list generalizing q with
  | nil => simpa using h
  | cons e rest ih =>
    refine ih ?_
    rcases h with h | ⟨q', hq', h⟩
    · exact .inl (List.mem_append_left _ h)
    · rcases List.mem_cons.1 hq' with rfl | hq'
      · exact .inl (List.mem_append_right _ h)
      · exact .inr ⟨q', hq', h⟩

include formed in
theorem settle_steps :
    StepsAt (Stage c.program {}) c.settle {} (fun _ => True) fun F settled _ =>
      (∀ {i : Nat} {s : Symbol}, c.program.symbols.symbols[i]? = some s →
        ∃ q ∈ settled, DeclaredIn F s q) ∧
      ∀ field ∈ c.program.symbols.constantFields, ∃ known, F.constants.get? field = some known ∧
        known.diagnostics ∈ settled := by
  have hstage : Stage c.program {} ({} : BindState).findings := sound_empty.stage
  refine (Steps.mapM (K := fun _ _ => True) (R := fun F s q trace => trace = [] ∧ DeclaredIn F s q)
    (fun s hs => ?_) _ hstage).bind ?_
  · obtain ⟨i, hi⟩ := List.mem_iff_getElem?.1 hs
    exact formed.bindDeclaration_steps rfl (i := i) (by simpa using hi)
  intro declared s₁ first _ hs₁ _ _ hdeclared
  refine (Steps.mapM (K := fun _ _ => True) (R := fun F field q trace => trace = [] ∧
    ∃ known, F.constants.get? field = some known ∧ known.diagnostics = q) (fun field hfield =>
      formed.evaluateConstant_answer ?_) _ hs₁).bind ?_
  · obtain ⟨s, hs, rfl⟩ := List.mem_map.1 hfield
    obtain ⟨i, hi⟩ := List.mem_iff_getElem?.1 (List.mem_filter.1 hs).1
    have hi : c.program.symbols.symbols[i]? = some s := by simpa using hi
    rw [(formed.table.entry hi).id_eq]
    exact SymbolTable.lt_of_getElem? hi
  intro constants s₂ second _ hs₂ hgrows₂ _ hconstants
  refine .pure hs₂ trivial fun F hF => ⟨fun hs => ?_, fun field hfield => ?_⟩
  · obtain ⟨q, hq, -, -, hdeclared⟩ := (hdeclared F (hgrows₂.trans hF)).exists_of_mem
      (Array.mem_toList_iff.2 (Array.mem_of_getElem? hs))
    exact ⟨q, List.mem_append_left _ hq, hdeclared⟩
  · obtain ⟨q, hq, -, -, known, hknown, rfl⟩ := (hconstants F hF).exists_of_mem hfield
    exact ⟨known, hknown, List.mem_append_right _ hq⟩

include formed in
theorem bind_steps :
    StepsAt (Sound c.program) c.bind {} (fun _ => True) fun F scope _ => c.Explained scope F := by
  refine (c.settle_steps formed).bind fun settled s₁ first _ hs₁ _ _ hsettled => ?_
  obtain ⟨hdeclared, hconstants⟩ := hsettled s₁.findings (.refl _)
  refine (c.bindAllCode_steps formed hs₁.sound fun hk => ?_).bind ?_
  · exact (hs₁.locals hk).resolve_left (by simp)
  intro parts s₂ second _ hs₂ hgrows _ hparts
  obtain ⟨⟨entryPoint, complaints⟩, hentry, -⟩ := c.selectEntryPoint_yields formed
  refine StepsAt.bind_lift hentry ?_
  have hyields : ∀ select, ∃ found, c.globalsWhere select = .ok found := by
    intro select
    obtain ⟨found, hfound, -⟩ := c.globalsWhere_yields formed select
    exact ⟨found, hfound⟩
  choose globals hglobals using hyields
  refine StepsAt.bind_lift (hglobals _) (StepsAt.bind_lift (hglobals _) ?_)
  refine StepsAt.bind_lift (hglobals _) ?_
  refine .pure hs₂ trivial fun F hF => ⟨rfl, s₁.findings, hgrows.trans hF, ⟨hs₁.progress, ?_, ?_⟩, ?_⟩
  · intro i s hs
    obtain ⟨q, hq, hdeclared⟩ := hdeclared hs
    refine ⟨q, hdeclared, fun d hd => mem_foldl_push (List.mem_append_left _ (mem_foldl_append ?_))⟩
    exact .inr ⟨q, hq, hd⟩
  · intro field hfield
    obtain ⟨known, hknown, hq⟩ := hconstants field hfield
    refine ⟨known, hknown, fun d hd => mem_foldl_push (List.mem_append_left _ (mem_foldl_append ?_))⟩
    exact .inr ⟨_, hq, hd⟩
  · refine (hparts F hF).2.mono fun d hd => ?_
    exact mem_foldl_push (List.mem_append_right _ hd)

include formed in
/-- Binding ends with a global scope whose code was bound by the rules, or not at all. -/
theorem run_spec :
    (∃ scope F, c.run = .ok (scope, F) ∧ Sound c.program F ∧ c.Explained scope F) ∨
      c.run = .error .endlessRequests := by
  have hbind := c.bind_steps formed
  unfold StepsAt Ends at hbind
  unfold run EStateM.run
  split at hbind
  · next scope s hrun =>
    obtain ⟨hsound, -, -, _, -, hexplained⟩ := hbind
    rw [hrun]
    exact .inl ⟨scope, s.findings, rfl, hsound, hexplained _ (.refl _)⟩
  · next fault s hrun =>
    rw [hrun, hbind]
    exact .inr rfl

end Compilation
end Bindery
