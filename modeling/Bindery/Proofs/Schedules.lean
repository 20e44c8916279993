import Bindery.Proofs.ConfinedCode
import Bindery.Proofs.Contracts

/-! # Binding code in any order

All code is bound after everything that is declared.  The code of each symbol is confined to nodes
of its own (`CodeOf`), and no two symbols share a node, so the code of one gives the same whatever
other code was bound before.  A schedule is any order of the symbols that have code; results are
merged in the order of declarations.

* `After`: what binding some code makes of the state, kept by each further piece (`After.step`) and
  by a list of pieces (`After.run`).
* `Compilation.code_independent_of_schedule`: no piece changes what is published about declarations,
  each gives what it gives by itself, and the global scope is the same for every schedule. -/

namespace Bindery

variable {p : Program}

/-! ### The code of one symbol -/

/-- Where the code of a symbol starts. -/
def SymbolKind.workRoot? : SymbolKind → Option NodeId
  | .method data => data.body
  | .field data => data.initializer
  | _ => none

variable (p) in
/-- The nodes of the code of a symbol. -/
def CodeOf (s : Symbol) (n : NodeId) : Prop := ∃ root, s.kind.workRoot? = some root ∧ Within p root n

theorem CodeOf.child {s : Symbol} ⦃n child : NodeId⦄ ⦃kind : Node⦄ (h : CodeOf p s n)
    (hnode : p.tree.node? n = some kind) (hkind : kind.holdsCode = true)
    (hchild : child ∈ kind.children) : CodeOf p s child := by
  obtain ⟨root, hroot, hn⟩ := h
  exact ⟨root, hroot, .step hn hnode hkind hchild⟩

theorem isArea_codeOf (s : Symbol) : IsArea p (.ofNodes (CodeOf p s)) := isArea_ofNodes CodeOf.child

theorem holdsScope_codeOf {s : Symbol} {root : NodeId} (h : s.kind.workRoot? = some root) :
    (Area.ofNodes (CodeOf p s)).HoldsScope p 0 root :=
  holdsScope_ofNodes CodeOf.child 0 ⟨root, h, .refl⟩

namespace Program.Formed

variable (formed : p.Formed) {i j : Nat} {s s' : Symbol}
include formed

theorem workRoot_startsAt (hs : p.symbols.symbols[i]? = some s) {root : NodeId}
    (h : s.kind.workRoot? = some root) : ∃ n, s.declaration = some n ∧ StartsAt p n root := by
  refine formed.startsAt_of_mem hs ?_
  cases hkind : s.kind <;> simp_all [SymbolKind.workRoot?, SymbolKind.nodes]

/-- The code of two symbols has no node in common. -/
theorem codeOf_apart (hs : p.symbols.symbols[i]? = some s) (hs' : p.symbols.symbols[j]? = some s')
    (hij : i ≠ j) {n : NodeId} (h : CodeOf p s n) : ¬ CodeOf p s' n := by
  rintro ⟨root', hroot', hn'⟩
  obtain ⟨root, hroot, hn⟩ := h
  obtain ⟨d, hd, hstarts⟩ := formed.workRoot_startsAt hs hroot
  obtain ⟨d', hd', hstarts'⟩ := formed.workRoot_startsAt hs' hroot'
  refine hstarts.apart formed.linked hstarts' ?_ n hn hn'
  rintro rfl
  exact hij (formed.table.declared_once hs hs' hd hd')

theorem bindCode_confined (hs : p.symbols.symbols[i]? = some s) :
    Confined p (.ofNodes (CodeOf p s)) (Compilation.bindCode p s) fun _ => True := by
  have hid := (formed.table.entry hs).id_eq
  unfold Compilation.bindCode
  split
  · next data hkind =>
    split
    · next hbody =>
      rw [hid]
      refine .bind (bindBody_confined (isArea_codeOf s) formed hs ?_ ?_) fun _ _ => .pure trivial
      · intro data' hkind' hentry
        have hnot := formed.not_isEntry_of_hasBody hs hkind' (by rw [hkind]; exact hbody)
        simp [hentry] at hnot
      · intro data' body hkind' hbody'
        exact .inl (holdsScope_codeOf (by rw [hkind']; exact hbody'))
    · exact .pure trivial
  · next data hkind =>
    split
    · rw [hid]
      refine .bind (bindInitializer_confined (isArea_codeOf s) formed hs ?_) fun _ _ => .pure trivial
      intro data' root hkind' hroot
      exact holdsScope_codeOf (by rw [hkind']; exact hroot)
    · exact .pure trivial
  · exact .pure trivial

/-- Alone or not, the code of a symbol leaves the pass as it was. -/
theorem bindCode_ends (hs : p.symbols.symbols[i]? = some s) {t : BindState}
    (hsound : Sound p t.findings) :
    Ends (· = .endlessRequests) (Compilation.bindCode p s) t fun _ t' =>
      Sound p t'.findings ∧ t'.pass = t.pass := by
  refine Ends.imp (formed.bindCode_steps False hs hsound (by simp)) ?_
  rintro result t' ⟨hwalk, -, -, trace, hpass, hR⟩
  obtain ⟨rfl, -⟩ := hR t'.findings (.refl _)
  exact ⟨hwalk.sound, by simpa using hpass⟩

end Program.Formed

/-! ### After some code -/

/-- The value that a computation gives in a state. -/
def BindM.value {α : Type} (m : BindM α) (s : BindState) : Except Fault α :=
  match m s with
  | .ok a _ => .ok a
  | .error fault _ => .error fault

namespace BindM

variable {α β : Type} {m : BindM α} {k : α → BindM β} {s t : BindState}

theorem value_bind_of_ok {a : α} (h : m s = .ok a t) : (m >>= k).value s = (k a).value t := by
  simp only [value, Bind.bind, EStateM.bind, h]

theorem value_bind_of_error {fault : Fault} (h : m s = .error fault t) :
    (m >>= k).value s = .error fault := by
  simp only [value, Bind.bind, EStateM.bind, h]

theorem value_eq_of_confined {area : Area} {Q : α → Prop} (hm : Confined p area m Q)
    (hst : Agree p area s t) : m.value s = m.value t := by
  have h := hm s t hst
  unfold value
  cases hs : m s <;> cases ht : m t <;> rw [hs, ht] at h
  case ok.ok => rw [h.1]
  case error.error => rw [show _ = _ from h]
  case ok.error => exact h.elim
  case error.ok => exact h.elim

end BindM

variable (p) in
/-- Everything is declared, and nothing is wrong with what is published. -/
structure Ready (s : BindState) : Prop where
  sound : Sound p s.findings
  published : p.Published s.findings

variable (p) in
/-- The symbol stands in the table. -/
def Listed (x : Symbol) : Prop := p.symbols.symbols[x.id]? = some x

theorem Listed.id_ne {x y : Symbol} (hx : Listed p x) (hy : Listed p y) (hne : x ≠ y) :
    x.id ≠ y.id := by
  intro hid
  unfold Listed at hx hy
  rw [hid] at hx
  exact hne (Option.mem_unique hx hy)

variable (p) in
/-- What binding the code of some symbols makes of a state. -/
structure After (s : BindState) (done : List Symbol) (t : BindState) : Prop where
  sound : Sound p t.findings
  pass : t.pass = s.pass
  declared : s.findings.SameDeclared t.findings
  /-- The locals of each piece are those it has when it is bound alone. -/
  own : ∀ x ∈ done, ∃ result s', Compilation.bindCode p x s = .ok result s' ∧
    s'.findings.SameLocals (.ofNodes (CodeOf p x)) t.findings
  others : s.findings.SameLocals (.ofNodes fun n => ∀ x ∈ done, ¬ CodeOf p x n) t.findings

namespace After

variable {s t t' : BindState} {done done' : List Symbol} {x : Symbol}

theorem refl (hs : Sound p s.findings) : After p s [] s :=
  ⟨hs, rfl, .refl _, by simp, .refl _⟩

theorem agree (h : After p s done t) (formed : p.Formed) (ready : Ready p s) (hx : Listed p x)
    (hdone : ∀ y ∈ done, Listed p y ∧ x.id ≠ y.id) : Agree p (.ofNodes (CodeOf p x)) s t where
  findings := by
    refine ⟨h.declared, h.others.mono fun n hn y hy => ?_, ready.published, ready.sound.regions,
      h.sound.regions⟩
    exact formed.codeOf_apart hx (hdone y hy).1 (hdone y hy).2 hn
  pass := h.pass

/-- The code of one more symbol ends as it does alone. -/
theorem step (h : After p s done t) (formed : p.Formed) (ready : Ready p s) (hx : Listed p x)
    (hdone : ∀ y ∈ done, Listed p y ∧ x.id ≠ y.id) :
    (∃ result s' t', Compilation.bindCode p x s = .ok result s' ∧
      Compilation.bindCode p x t = .ok result t' ∧ After p s (x :: done) t') ∨
    ∃ s' t', Compilation.bindCode p x s = .error .endlessRequests s' ∧
      Compilation.bindCode p x t = .error .endlessRequests t' := by
  have hagree := h.agree formed ready hx hdone
  have hconfined := formed.bindCode_confined hx
  have htogether := hconfined s t hagree
  have hback := hconfined t s hagree.symm
  have hends := formed.bindCode_ends hx h.sound
  cases hs : Compilation.bindCode p x s <;> cases ht : Compilation.bindCode p x t <;>
    rw [hs, ht] at htogether hback
  case ok.ok result s' result' t' =>
    obtain ⟨rfl, -, hagree', -⟩ := htogether
    obtain ⟨-, -, -, hdeclared, hlocals⟩ := hback
    have hlocals : t.findings.SameLocals (.ofNodes fun n => ¬ CodeOf p x n) t'.findings := hlocals
    obtain ⟨hsound, hpass⟩ := hends.of_ok ht
    refine .inl ⟨_, s', t', rfl, rfl, hsound, hpass.trans h.pass, h.declared.trans hdeclared,
      ?_, ?_⟩
    · intro y hy
      rcases List.mem_cons.1 hy with rfl | hy
      · exact ⟨_, s', hs, hagree'.findings.locals⟩
      · obtain ⟨r, u, hu, hown⟩ := h.own y hy
        refine ⟨r, u, hu, hown.trans (hlocals.mono fun n hn => ?_)⟩
        exact formed.codeOf_apart (hdone y hy).1 hx (hdone y hy).2.symm hn
    · refine (h.others.mono fun n hn y hy => hn y (List.mem_cons_of_mem _ hy)).trans
        (hlocals.mono fun n hn => hn x List.mem_cons_self)
  case error.error fault s' fault' t' =>
    obtain rfl : fault' = fault := htogether
    obtain rfl := hends.excused_of_error ht
    exact .inr ⟨s', t', rfl, rfl⟩
  case ok.error => exact htogether.elim
  case error.ok => exact htogether.elim

/-- A list of pieces: each gives what it gives alone, unless requests do not come to an end. -/
theorem run (h : After p s done t) (formed : p.Formed) (ready : Ready p s) {items : List Symbol}
    (hlisted : ∀ x ∈ items ++ done, Listed p x) (hnodup : (items ++ done).Nodup) :
    (∃ results t', items.mapM (Compilation.bindCode p) t = .ok results t' ∧
      items.mapM (fun x => (Compilation.bindCode p x).value s) = .ok results ∧
      After p s (items.reverse ++ done) t') ∨
    (∃ t', items.mapM (Compilation.bindCode p) t = .error .endlessRequests t') ∧
      items.mapM (fun x => (Compilation.bindCode p x).value s) = .error .endlessRequests := by
  induction items generalizing done t with
  | nil => exact .inl ⟨[], t, rfl, rfl, h⟩
  | cons x rest ih =>
    have hx : Listed p x := hlisted x (by simp)
    have hnodup' := List.nodup_cons.1 hnodup
    have hdone : ∀ y ∈ done, Listed p y ∧ x.id ≠ y.id := by
      intro y hy
      have hy' := hlisted y (List.mem_append_right _ hy)
      refine ⟨hy', hx.id_ne hy' ?_⟩
      rintro rfl
      exact hnodup'.1 (List.mem_append_right _ hy)
    simp only [List.mapM_cons, BindM.value]
    rcases h.step formed ready hx hdone with ⟨result, s', t', hs', ht', hafter⟩ | ⟨s', t', hs', ht'⟩
    · have hperm : (rest ++ x :: done).Perm (x :: rest ++ done) := List.perm_middle
      have hlisted' : ∀ y ∈ rest ++ x :: done, Listed p y := fun y hy =>
        hlisted y (hperm.mem_iff.1 hy)
      rcases ih hafter hlisted' (hperm.nodup_iff.2 hnodup) with
        ⟨results, u, hu, halone, hafter'⟩ | ⟨⟨u, hu⟩, halone⟩
      · refine .inl ⟨result :: results, u, ?_, ?_, by simpa using hafter'⟩
        · simp only [Bind.bind, EStateM.bind, ht', hu]
          rfl
        · simp only [hs']
          simp only [BindM.value] at halone
          rw [halone]
          rfl
      · refine .inr ⟨⟨u, ?_⟩, ?_⟩
        · simp only [Bind.bind, EStateM.bind, ht', hu]
        · simp only [hs']
          simp only [BindM.value] at halone
          rw [halone]
          rfl
    · refine .inr ⟨⟨t', ?_⟩, ?_⟩
      · simp only [Bind.bind, EStateM.bind, ht']
      · simp only [hs']
        rfl

/-- Two schedules of the same code end in states that agree everywhere. -/
theorem agree_everywhere (h : After p s done t) (h' : After p s done' t') (ready : Ready p s)
    (hmem : ∀ x, x ∈ done ↔ x ∈ done') : Agree p (.ofNodes fun _ => True) t t' where
  pass := h'.pass.trans h.pass.symm
  findings := by
    refine ⟨h.declared.symm.trans h'.declared, ?_, h.declared.published ready.published,
      h.sound.regions, h'.sound.regions⟩
    have own : ∀ x ∈ done, t.findings.SameLocals (.ofNodes (CodeOf p x)) t'.findings := by
      intro x hx
      obtain ⟨r, u, hu, hlocals⟩ := h.own x hx
      obtain ⟨r', u', hu', hlocals'⟩ := h'.own x ((hmem x).1 hx)
      obtain ⟨rfl, rfl⟩ := EStateM.Result.ok.inj (hu.symm.trans hu')
      exact hlocals.symm.trans hlocals'
    have others : t.findings.SameLocals (.ofNodes fun n => ∀ x ∈ done, ¬ CodeOf p x n) t'.findings :=
      h.others.symm.trans (h'.others.mono fun n hn x hx => hn x ((hmem x).2 hx))
    -- a node lies in the code of a symbol that was bound, or in none
    have everywhere : ∀ n, (∃ x ∈ done, CodeOf p x n) ∨ ∀ x ∈ done, ¬ CodeOf p x n := by
      intro n
      by_cases hn : ∃ x ∈ done, CodeOf p x n
      · exact .inl hn
      · exact .inr fun x hx hcode => hn ⟨x, hx, hcode⟩
    refine ⟨fun key _ => ?_, fun key _ => ?_, fun key _ => ?_, fun key _ => ?_⟩ <;>
      rcases everywhere key.declaration with ⟨x, hx, hcode⟩ | hnone
    · exact (own x hx).types key hcode
    · exact others.types key hnone
    · exact (own x hx).constants key hcode
    · exact others.constants key hnone
    · exact (own x hx).signatures key hcode
    · exact others.signatures key hnone
    · exact (own x hx).defaults key hcode
    · exact others.defaults key hnone

end After

/-! ### Schedules -/

/-- Whether the code of a symbol is bound by itself: a method has a body, or a field that is not
constant has an initializer. -/
def SymbolKind.hasCode : SymbolKind → Bool
  | .method data => data.body.isSome
  | .field data => !data.isConstant && data.initializer.isSome
  | _ => false

namespace Compilation

variable (c : Compilation)

/-- The symbols with code, in the order of their declarations. -/
def workList : List Symbol := c.program.symbols.symbols.toList.filter (·.kind.hasCode)

/-- Put results together in the order of declarations, in whatever order they come. -/
def merge (results : List (Symbol × Option (Evaluated BoundCode))) : CodeParts :=
  c.workList.foldl (fun parts symbol =>
    parts.addSome ((results.find? fun result => result.1.id = symbol.id).bind (·.2))) {}

/-- Bind everything, the code of symbols in the given order. -/
def bindInOrder (order : List Symbol) : BindM GlobalScope := do
  let settled ← c.settle
  let results ← order.mapM (bindCode c.program)
  c.assemble settled (← c.bindEntry (c.merge (order.zip results)))

/-- The global scope of a schedule. -/
def scopeInOrder (order : List Symbol) : Except Fault GlobalScope := (c.bindInOrder order).value {}

/-! ### Declarations in order -/

theorem bindCode_of_not_hasCode {x : Symbol} (h : x.kind.hasCode = false) :
    bindCode p x = Pure.pure none := by
  unfold bindCode
  cases hkind : x.kind <;> simp_all [SymbolKind.hasCode]

theorem foldlM_bindCode (p : Program) (symbols : List Symbol) (parts : CodeParts) :
    symbols.foldlM (fun parts symbol => return parts.addSome (← bindCode p symbol)) parts = (do
      let results ← (symbols.filter (·.kind.hasCode)).mapM (bindCode p)
      return results.foldl CodeParts.addSome parts) := by
  induction symbols generalizing parts with
  | nil => rfl
  | cons x rest ih =>
    rw [List.foldlM_cons]
    cases hcode : x.kind.hasCode with
    | false =>
      rw [List.filter_cons_of_neg (by simp [hcode]), bindCode_of_not_hasCode hcode, ← ih parts]
      rfl
    | true =>
      rw [List.filter_cons_of_pos (p := fun x : Symbol => x.kind.hasCode) hcode, List.mapM_cons]
      simp only [bind_assoc, pure_bind, List.foldl_cons]
      congr 1
      funext result
      exact ih _

theorem bindAllCode_eq : c.bindAllCode = (do
    let results ← c.workList.mapM (bindCode c.program)
    c.bindEntry (results.foldl CodeParts.addSome {})) := by
  rw [bindAllCode, foldlM_bindCode, bind_assoc]
  rfl

/-! ### Merging -/

/-- Results that were computed one by one. -/
theorem eq_map_of_mapM {α β : Type} {f : α → Except Fault β} {g : α → β} {list : List α}
    {results : List β} (h : list.mapM f = .ok results) (hg : ∀ a ∈ list, ∀ b, f a = .ok b → g a = b) :
    results = list.map g := by
  have each := forall₂_of_mapM h
  clear h
  induction each with
  | nil => rfl
  | @cons a b _ _ hb _ ih =>
    rw [List.map_cons, hg a (by simp) b hb, ih fun a ha => hg a (List.mem_cons_of_mem _ ha)]

section

variable {c} (formed : c.program.Formed)
include formed

theorem listed_of_mem {x : Symbol} (hx : x ∈ c.workList) : Listed c.program x := by
  obtain ⟨i, hi⟩ := List.mem_iff_getElem?.1 (List.mem_filter.1 hx).1
  have hi : c.program.symbols.symbols[i]? = some x := by simpa using hi
  unfold Listed
  rw [(formed.table.entry hi).id_eq, hi]

theorem workList_nodup : c.workList.Nodup := by
  refine List.Nodup.filter _ ?_
  rw [List.nodup_iff_getElem?_ne_getElem?]
  intro i j hij hj heq
  obtain ⟨x, hx⟩ : ∃ x, c.program.symbols.symbols.toList[j]? = some x := by
    rw [List.getElem?_eq_getElem hj]
    exact ⟨_, rfl⟩
  rw [hx] at heq
  have hi := (formed.table.entry (i := i) (by simpa using heq)).id_eq
  have hj := (formed.table.entry (i := j) (by simpa using hx)).id_eq
  exact Nat.ne_of_lt hij (hi.symm.trans hj)

/-- However the results come, merging puts those of the work list in its order. -/
theorem merge_eq {order : List Symbol} (hperm : order.Perm c.workList)
    {f : Symbol → Except Fault (Option (Evaluated BoundCode))}
    {results results' : List (Option (Evaluated BoundCode))} (h : order.mapM f = .ok results)
    (h' : c.workList.mapM f = .ok results') :
    c.merge (order.zip results) = results'.foldl CodeParts.addSome {} := by
  let g : Symbol → Option (Evaluated BoundCode) := fun x =>
    match f x with
    | .ok result => result
    | .error _ => none
  have hg : ∀ (list : List Symbol), ∀ x ∈ list, ∀ r, f x = .ok r → g x = r := by
    intro list x _ r hr
    simp only [g, hr]
  rw [eq_map_of_mapM h (hg order), eq_map_of_mapM h' (hg c.workList), List.foldl_map]
  have hzip : order.zip (order.map g) = order.map fun x => (x, g x) :=
    List.map_prod_left_eq_zip.symm
  have find : ∀ x ∈ c.workList, ((order.map fun x => (x, g x)).find? fun result =>
      result.1.id = x.id).bind (·.2) = g x := by
    intro x hx
    have hfound : ((order.map fun x => (x, g x)).find? fun result => result.1.id = x.id).isSome := by
      rw [List.find?_isSome]
      exact ⟨(x, g x), List.mem_map.2 ⟨x, hperm.mem_iff.2 hx, rfl⟩, by simp⟩
    obtain ⟨result, hresult⟩ := Option.isSome_iff_exists.1 hfound
    obtain ⟨y, hy, rfl⟩ := List.mem_map.1 (List.mem_of_find?_eq_some hresult)
    have hid : y.id = x.id := by simpa using List.find?_some hresult
    have hyx : y = x := by
      by_contra hne
      exact (listed_of_mem formed (hperm.mem_iff.1 hy)).id_ne (listed_of_mem formed hx) hne hid
    rw [hresult, hyx]
    rfl
  unfold merge
  rw [hzip]
  refine List.foldl_ext _ _ _ fun parts x hx => ?_
  rw [find x hx]

/-! ### After the code of symbols -/

theorem bindEntry_confined (parts : CodeParts) :
    Confined c.program (.ofNodes fun _ => True) (c.bindEntry parts) fun _ => True := by
  unfold bindEntry
  split
  · exact .pure trivial
  · next entry hentry =>
    obtain ⟨s, hs⟩ := SymbolTable.exists_of_lt (Program.entry?_lt formed hentry)
    refine .bind (Program.bindBody_confined isArea_everywhere formed hs ?_ fun _ _ _ _ =>
      .inl holdsScope_everywhere) fun body _ => ?_
    · intro data hkind _ entry' hentry'
      obtain rfl := Option.mem_unique hentry hentry'
      exact ⟨⟨s, data, hs, hkind⟩, holdsScope_everywhere⟩
    · cases body <;> exact .pure trivial

omit formed in
theorem assemble_confined (settled : List DiagnosticQueue) (parts : CodeParts) :
    Confined c.program (.ofNodes fun _ => True) (c.assemble settled parts) fun _ => True :=
  .bind_lift fun _ _ => .bind_lift fun _ _ => .bind_lift fun _ _ => .bind_lift fun _ _ =>
    .pure trivial

variable {s : BindState}

theorem ready_of_settle {settled : List DiagnosticQueue} (h : c.settle {} = .ok settled s) :
    Ready c.program s := by
  obtain ⟨hstage, -, -, _, -, hsettled⟩ := (c.settle_steps formed).of_ok h
  obtain ⟨hdeclared, hconstants⟩ := hsettled s.findings (.refl _)
  refine ⟨hstage.sound, ⟨fun {i x data} hx hkind => ?_, fun {i x data} hx hkind => ?_,
    fun {i x data} hx hkind hconstant => ?_⟩⟩
  iterate 2
    obtain ⟨q, -, hq⟩ := hdeclared hx
    unfold DeclaredIn at hq
    rw [hkind, (formed.table.entry hx).id_eq] at hq
    obtain ⟨known, hknown, -⟩ := hq
    exact ⟨known, hknown⟩
  · have hfield : i ∈ c.program.symbols.constantFields := by
      refine List.mem_map.2 ⟨x, List.mem_filter.2 ⟨?_, ?_⟩, (formed.table.entry hx).id_eq⟩
      · exact Array.mem_toList_iff.2 (Array.mem_of_getElem? hx)
      · simp [Symbol.isConstantField, hkind, hconstant]
    obtain ⟨known, hknown, -⟩ := hconstants i hfield
    exact ⟨known, hknown⟩

/-- Pieces of code that are bound after everything is declared. -/
theorem run_items (ready : Ready c.program s) {items : List Symbol} (hitems : items ⊆ c.workList)
    (hnodup : items.Nodup) :
    (∃ results t, items.mapM (bindCode c.program) s = .ok results t ∧
      items.mapM (fun x => (bindCode c.program x).value s) = .ok results ∧
      After c.program s items.reverse t) ∨
    (∃ t, items.mapM (bindCode c.program) s = .error .endlessRequests t) ∧
      items.mapM (fun x => (bindCode c.program x).value s) = .error .endlessRequests := by
  have hlisted : ∀ x ∈ items ++ [], Listed c.program x := fun x hx =>
    listed_of_mem formed (hitems (by simpa using hx))
  have h := (After.refl ready.sound).run formed ready hlisted (by simpa using hnodup)
  simpa only [List.append_nil] using h

/-- Once everything is declared, the rest gives the same for every schedule. -/
theorem value_in_order (ready : Ready c.program s) (settled : List DiagnosticQueue)
    {order : List Symbol} (hperm : order.Perm c.workList) :
    BindM.value (do
      let results ← order.mapM (bindCode c.program)
      c.assemble settled (← c.bindEntry (c.merge (order.zip results)))) s =
    BindM.value (do c.assemble settled (← c.bindAllCode)) s := by
  have hnodup := workList_nodup formed
  -- whether each piece ends by itself does not depend on the order
  have transfer : ∀ {list list' : List Symbol} {results : List (Option (Evaluated BoundCode))},
      list.Perm list' → list.mapM (fun x => (bindCode c.program x).value s) = .ok results →
      list'.mapM (fun x => (bindCode c.program x).value s) ≠ .error .endlessRequests := by
    intro list list' results hlists h hfault
    have hends : ∀ x ∈ list', Yields ((bindCode c.program x).value s) fun _ => True := by
      intro x hx
      obtain ⟨b, -, hb⟩ := exists_of_forall₂ (forall₂_of_mapM h).flip (hlists.mem_iff.2 hx)
      exact ⟨b, hb, trivial⟩
    obtain ⟨_, hok, -⟩ := Yields.mapM (Q := fun _ _ => True) hends
    simp [hok] at hfault
  rw [bindAllCode_eq, bind_assoc]
  rcases run_items formed ready hperm.subset (hperm.nodup_iff.2 hnodup) with
      ⟨results, t, ht, halone, hafter⟩ | ⟨⟨t, ht⟩, halone⟩ <;>
    rcases run_items formed ready (List.Subset.refl _) hnodup with
      ⟨results', t', ht', halone', hafter'⟩ | ⟨⟨t', ht'⟩, halone'⟩
  · rw [BindM.value_bind_of_ok ht, BindM.value_bind_of_ok ht', merge_eq formed hperm halone halone']
    refine BindM.value_eq_of_confined (.bind (bindEntry_confined formed _) fun parts _ =>
      assemble_confined settled parts) (hafter.agree_everywhere hafter' ready fun x => ?_)
    simpa using hperm.mem_iff
  · exact absurd halone' (transfer hperm halone)
  · exact absurd halone (transfer hperm.symm halone')
  · rw [BindM.value_bind_of_error ht, BindM.value_bind_of_error ht']

end

theorem run_map_fst : c.run.map (·.1) = c.bind.value {} := by
  unfold run BindM.value EStateM.run
  cases c.bind {} <;> rfl

/-- Once declarations and constants are bound, no code changes what is published about them.  Each
piece gives what it gives by itself, whatever was bound before it, and the global scope is the same
for every schedule. -/
theorem code_independent_of_schedule {d : Document} {tree : Tree} (htree : Tree.ofDocument d = .ok tree)
    (options : Options) :
    ∃ c, declare tree options = .ok c ∧
      ((∃ s, c.settle {} = .error .endlessRequests s) ∨
        ∃ settled s, c.settle {} = .ok settled s ∧
          (∀ items ⊆ c.workList, items.Nodup →
            (items.mapM (bindCode c.program)).value s =
              items.mapM (fun x => (bindCode c.program x).value s) ∧
            ∀ results t, items.mapM (bindCode c.program) s = .ok results t →
              s.findings.SameDeclared t.findings) ∧
          ∀ order : List Symbol, order.Perm c.workList → c.scopeInOrder order = c.run.map (·.1)) := by
  obtain ⟨c, hc, -, -, formed⟩ := declare_yields (Tree.ofDocument_linked htree) options
  refine ⟨c, hc, ?_⟩
  cases hsettle : c.settle {} with
  | error fault s =>
    obtain rfl := (c.settle_steps formed).excused_of_error hsettle
    exact .inl ⟨s, rfl⟩
  | ok settled s =>
    have ready := ready_of_settle formed hsettle
    refine .inr ⟨settled, s, rfl, fun items hitems hnodup => ?_, fun order hperm => ?_⟩
    · rcases run_items formed ready hitems hnodup with
        ⟨results, t, ht, halone, hafter⟩ | ⟨⟨t, ht⟩, halone⟩
      · refine ⟨?_, fun results' t' ht' => ?_⟩
        · rw [halone, BindM.value, ht]
        · obtain ⟨-, rfl⟩ := EStateM.Result.ok.inj (ht.symm.trans ht')
          exact hafter.declared
      · refine ⟨?_, fun results' t' ht' => ?_⟩
        · rw [halone, BindM.value, ht]
        · simp [ht] at ht'
    · rw [run_map_fst, bind, scopeInOrder, bindInOrder, BindM.value_bind_of_ok hsettle,
        BindM.value_bind_of_ok hsettle]
      exact value_in_order formed ready settled hperm

/-- The names of the symbols with code, if everything that is declared can be bound. -/
def settledWork? (c : Compilation) : Option (List String) :=
  match c.settle {} with
  | .error .. => none
  | .ok .. => some (c.workList.map (·.name))

theorem exists_settled {d : Document} {options : Options} {names : List String}
    (h : observe settledWork? d options = some (some names)) :
    ∃ c settled s, Tree.ofDocument d = .ok c.program.tree ∧ declare c.program.tree options = .ok c ∧
      c.settle {} = .ok settled s ∧ c.workList.map (·.name) = names := by
  obtain ⟨c, htree, hc, h⟩ := exists_of_observe _ h
  unfold settledWork? at h
  split at h
  · cases h
  · next settled s hsettle => exact ⟨c, settled, s, htree, hc, hsettle, Option.some.inj h⟩

/-- Two methods, each with a local, of which the first calls the second. -/
def callingDocument : Document := ⟨"calling", [
  .literal (.int 1), .localDeclaration "a" none false (some 0), .identifier "n", .call 2 [],
  .expressionStatement 3, .block [1, 4], .methodDeclaration "m" .none none [] 5,
  .literal (.int 2), .localDeclaration "b" none false (some 7), .block [8],
  .methodDeclaration "n" .none none [] 9, .compilationUnit [6, 10]]⟩

theorem code_independent_of_schedule_calling :
    ∃ tree c settled s, Tree.ofDocument callingDocument = .ok tree ∧ declare tree {} = .ok c ∧
      c.workList.map (·.name) = ["m", "n"] ∧ c.settle {} = .ok settled s ∧
      (c.workList.reverse.mapM (bindCode c.program)).value s =
        c.workList.reverse.mapM (fun x => (bindCode c.program x).value s) ∧
      (∀ results t, c.workList.reverse.mapM (bindCode c.program) s = .ok results t →
        s.findings.SameDeclared t.findings) ∧
      c.scopeInOrder c.workList.reverse = c.run.map (·.1) := by
  obtain ⟨c, settled, s, htree, hc, hsettle, hnames⟩ := exists_settled
    (show observe settledWork? callingDocument {} = some (some ["m", "n"]) by decide +kernel)
  obtain ⟨c', hc', h⟩ := code_independent_of_schedule htree {}
  obtain rfl := ok_unique hc hc'
  rcases h with ⟨s', hs'⟩ | ⟨settled', s', hs', hitems, horders⟩
  · simp [hsettle] at hs'
  · obtain ⟨rfl, rfl⟩ := EStateM.Result.ok.inj (hsettle.symm.trans hs')
    have hperm : c.workList.reverse.Perm c.workList := List.reverse_perm _
    have hnodup : c.workList.reverse.Nodup := by
      refine List.nodup_reverse.2 (List.Nodup.of_map (·.name) ?_)
      rw [hnames]
      decide
    obtain ⟨hvalue, hdeclared⟩ := hitems _ hperm.subset hnodup
    exact ⟨_, c, settled, s, htree, hc, hnames, hsettle, hvalue, hdeclared, horders _ hperm⟩

end Compilation
end Bindery
