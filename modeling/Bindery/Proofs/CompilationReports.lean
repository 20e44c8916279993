import Bindery.Proofs.FunctionParts
import Bindery.Proofs.StatementReports
import Bindery.Proofs.TreeShape

/-! # The diagnostics of a global scope

What the code of a global scope owes is reported in it, and of other messages only such that may
occur anywhere; when everything is bound, the findings are in order (`Compilation.Compiles.tells`).
What is owed can be read off the bound statements and their scopes (`Compilation.codeOwes_iff`).
Since no two nodes have one span, this says at which nodes a message about jumps is reported
(`Compilation.reportsExactly_of_owes`). -/

namespace Bindery

variable {p : Program}

namespace Compilation

variable {d : Document} {options : Options} {c : Compilation} {scope : GlobalScope} {F : Findings}

/-! ### Declarations and constants -/

/-- Diagnostics that may occur anywhere. -/
def MayAllOccur (p : Program) (queue : DiagnosticQueue) : Prop :=
  ∀ d ∈ queue.items, d.message.MayOccur p

theorem bindDeclaration_quiet (symbol : Symbol) :
    Quiet p (bindDeclaration p symbol) (MayAllOccur p) := by
  have nothing : MayAllOccur p {} := by simp [MayAllOccur]
  unfold bindDeclaration
  split
  · split
    · exact .pure nothing
    · exact .bind (Program.bindTemplateParameters_quiet _) fun _ h => .pure h
  · exact .bind (Program.answer_quiet.signature _) fun _ h => .pure h.2
  · exact .bind (Program.answer_quiet.fieldType _ _) fun _ h => .pure h.2
  · split
    · exact .bind (Program.defaultOf_quiet _) fun _ h => .pure h
    · exact .pure nothing
  · exact .pure nothing

theorem evaluateConstant_quiet (field : SymbolId) :
    Quiet p (evaluateConstant p field) (MayAllOccur p) := by
  refine .bind (Program.answer_quiet.fieldConstant field none) fun found hfound => ?_
  cases found with
  | some evaluated => exact .pure (hfound evaluated rfl)
  | none => exact .pure (by simp [MayAllOccur])

theorem settle_quiet (c : Compilation) :
    Quiet c.program c.settle fun queues => ∀ q ∈ queues, MayAllOccur c.program q := by
  refine .bind (.mapM fun symbol _ => bindDeclaration_quiet symbol) fun declared hdeclared => ?_
  refine .bind (.mapM fun field _ => evaluateConstant_quiet field) fun constants hconstants => .pure ?_
  intro q hq
  rcases List.mem_append.1 hq with hq | hq
  · exact forall_of_forall₂ hdeclared q hq
  · exact forall_of_forall₂ hconstants q hq

/-- What is said about the entry point may occur anywhere. -/
theorem mayOccur_of_selectEntryPoint {entry : Option SymbolId} {complaints : List Diagnostic}
    (h : c.selectEntryPoint = .ok (entry, complaints)) : ∀ d ∈ complaints, d.message.MayOccur p := by
  have complaint : ∀ {message : Message} {methods : List SymbolId} {found : List Diagnostic},
      (methods.mapM fun symbol => do
        c.program.diagnostic (← c.program.declarationOrRoot symbol) message [c.options.entryPoint]) =
          .ok found → message.MayOccur p → ∀ d ∈ found, d.message.MayOccur p := by
    intro message methods found hfound hmessage d hd
    obtain ⟨symbol, -, hd⟩ := exists_of_forall₂ (forall₂_of_mapM hfound) hd
    obtain ⟨node, -, hd⟩ := exists_of_bind_eq_ok hd
    exact Program.message_of_diagnostic hd ▸ hmessage
  obtain ⟨candidates, -, h⟩ := exists_of_bind_eq_ok h
  split at h
  · obtain ⟨-, rfl⟩ := Prod.mk.inj (Except.ok.inj h)
    simp
  · obtain ⟨-, rfl⟩ := Prod.mk.inj (Except.ok.inj h)
    simp
  · obtain ⟨main, -, h⟩ := exists_of_bind_eq_ok h
    obtain ⟨others, -, h⟩ := exists_of_bind_eq_ok h
    obtain ⟨invalid, hinvalid, h⟩ := exists_of_bind_eq_ok h
    obtain ⟨beside, hbeside, ⟨rfl⟩⟩ := exists_of_bind_pure_eq_ok h
    intro d hd
    rcases List.mem_append.1 hd with hd | hd
    · exact complaint hinvalid trivial d hd
    · exact complaint hbeside trivial d hd

/-! ### Code -/

/-- What is owed by the body of a method. -/
def SymbolOwes (p : Program) (x : Symbol) (d : Diagnostic) : Prop :=
  ∃ data body region, x.kind = .method data ∧ data.body = some body ∧
    p.bodyScope x.id = .ok (some region) ∧ Owed p region body d

/-- What is owed by the global statements. -/
def EntryOwes (p : Program) (d : Diagnostic) : Prop :=
  ∃ entry data region, p.symbols.entry? = some entry ∧ p.symbols.method? entry = .ok (some data) ∧
    p.bodyScope entry = .ok (some region) ∧ p.BodyOwes data region d

/-- What is owed by all code. -/
def CodeOwes (p : Program) (d : Diagnostic) : Prop :=
  ∃ region root chain node, p.CodeStart region root chain node ∧ Owed p chain node d

/-- The code of a symbol reports what it owes. -/
theorem tells_of_bindCode (formed : p.Formed) {x : Symbol} (hx : Listed p x) {t t' : BindState}
    (hcache : p.CacheSound t.findings.regions) (tidy : Tidy p t.findings)
    {result : Option (Evaluated BoundCode)} (h : bindCode p x t = .ok result t') :
    Tidy p t'.findings ∧ ∀ piece ∈ result, Tells p (SymbolOwes p x) piece.diagnostics.items := by
  unfold bindCode at h
  cases hkind : x.kind with
  | method data =>
    rw [hkind] at h
    change (if data.body.isSome = true then _ else _ : BindM _) t = _ at h
    split at h
    · next hbody =>
      have hisEntry := formed.not_isEntry_of_hasBody hx hkind (by rw [hkind]; exact hbody)
      obtain ⟨found, hfound, rfl⟩ := exists_of_run_bind_pure h
      obtain ⟨tidy₁, htells⟩ := Program.tells_of_bindBody formed hx hkind (by simp [hisEntry])
        hcache tidy hfound
      refine ⟨tidy₁, fun piece hpiece => ?_⟩
      obtain ⟨e, rfl, rfl⟩ := Option.map_eq_some_iff.1 hpiece
      obtain ⟨region, hregion, htells⟩ := htells e rfl
      refine htells.owes fun d => ?_
      simp [Program.BodyOwes, SymbolOwes, hisEntry, hkind, hregion]
    · obtain ⟨rfl, rfl⟩ := EStateM.Result.ok.inj h
      exact ⟨tidy, by simp⟩
  | field data =>
    rw [hkind] at h
    change (if (!data.isConstant && data.initializer.isSome) = true then _ else _ : BindM _) t = _
      at h
    split at h
    · obtain ⟨found, t₁, hfound, h⟩ := exists_of_run_bind h
      obtain ⟨rfl, rfl⟩ := EStateM.Result.ok.inj h
      obtain ⟨tidy₁, htame, -⟩ := Program.bindInitializer_quiet x.id t found t₁ tidy hfound
      refine ⟨tidy₁, fun piece hpiece => ?_⟩
      obtain ⟨e, rfl, rfl⟩ := Option.map_eq_some_iff.1 hpiece
      exact ⟨fun d hd => by simp [SymbolOwes, hkind] at hd,
        fun d hd => .inr ((htame e rfl).2 d hd)⟩
    · obtain ⟨rfl, rfl⟩ := EStateM.Result.ok.inj h
      exact ⟨tidy, by simp⟩
  | _ =>
    rw [hkind] at h
    obtain ⟨rfl, rfl⟩ := EStateM.Result.ok.inj h
    exact ⟨tidy, by simp⟩

/-- Findings stay in order while the code of symbols is bound. -/
theorem tidy_of_mapM (formed : p.Formed) {list : List Symbol} (hlist : ∀ x ∈ list, Listed p x)
    {t t' : BindState} (hsound : Sound p t.findings) (tidy : Tidy p t.findings)
    {results : List (Option (Evaluated BoundCode))}
    (h : list.mapM (bindCode p) t = .ok results t') : Tidy p t'.findings := by
  induction list generalizing t results with
  | nil =>
    obtain ⟨-, rfl⟩ := EStateM.Result.ok.inj h
    exact tidy
  | cons x rest ih =>
    have hx := hlist x (by simp)
    rw [List.mapM_cons] at h
    obtain ⟨result, t₁, hresult, h⟩ := exists_of_run_bind h
    obtain ⟨others, hothers, -⟩ := exists_of_run_bind_pure h
    have hsound₁ := ((formed.bindCode_ends hx hsound).of_ok hresult).1
    exact ih (fun y hy => hlist y (by simp [hy])) hsound₁
      (tells_of_bindCode formed hx hsound.regions tidy hresult).1 hothers

/-- What the pieces of a list owe, each with its symbol. -/
theorem tells_flatMap {α β : Type} {owed : α → Diagnostic → Prop} {items : β → List Diagnostic}
    {list : List α} {results : List β}
    (h : List.Forall₂ (fun a b => Tells p (owed a) (items b)) list results) :
    Tells p (fun d => ∃ a ∈ list, owed a d) (results.flatMap items) := by
  induction h with
  | nil => exact Tells.nil.owes (by simp)
  | cons hab _ ih => exact (hab.append ih).owes (by simp)

section built

variable (h : Compiles d options c scope F) {settled : List DiagnosticQueue} {s t : BindState}
  {pieces : List (Evaluated BoundCode)} {parts : CodeParts}
  (built : c.Built scope F settled s pieces t parts)
include h built

theorem Built.tidy : Tidy c.program s.findings ∧ Tidy c.program t.findings := by
  obtain ⟨tidy, -, -⟩ := settle_quiet c {} settled s .empty built.settled_eq
  exact ⟨tidy, tidy_of_mapM h.formed (fun x hx => listed_of_mem h.formed hx) built.ready.sound tidy
    built.work_eq⟩

/-- The pieces report what their symbols owe. -/
theorem Built.tells_pieces : Tells c.program (fun d => ∃ x ∈ c.workList, SymbolOwes c.program x d)
    (pieces.flatMap (·.diagnostics.items)) := by
  refine tells_flatMap ?_
  have hlisted : ∀ x ∈ c.workList, Listed c.program x := fun x hx => listed_of_mem h.formed hx
  have hsound := built.ready.sound
  have tidy := (built.tidy h).1
  have hpieces := built.pieces_eq
  clear built
  generalize c.workList = list at hlisted hpieces
  induction hpieces with
  | nil => exact .nil
  | @cons x piece rest pieces hpiece _ ih =>
    refine .cons ?_ (ih fun y hy => hlisted y (by simp [hy]))
    have hvalue := hpiece.1
    unfold BindM.value at hvalue
    cases hrun : bindCode c.program x s with
    | error fault s' => simp [hrun] at hvalue
    | ok result s' =>
      rw [hrun] at hvalue
      obtain rfl := Except.ok.inj hvalue
      exact (tells_of_bindCode h.formed (hlisted x (by simp)) hsound.regions tidy hrun).2 piece rfl

/-- After the pieces, the global statements are reported about. -/
theorem Built.tells_parts : Tidy c.program F ∧
    Tells c.program (fun d => (∃ x ∈ c.workList, SymbolOwes c.program x d) ∨ EntryOwes c.program d)
      parts.diagnostics.items := by
  have formed := h.formed
  obtain ⟨-, tidy⟩ := built.tidy h
  have hpieces := built.tells_pieces h
  have unchanged : parts = .ofPieces pieces → (∀ d, ¬ EntryOwes c.program d) →
      Tells c.program (fun d => (∃ x ∈ c.workList, SymbolOwes c.program x d) ∨ EntryOwes c.program d)
        parts.diagnostics.items := by
    rintro rfl hnot
    exact hpieces.owes fun d => by simp [hnot d]
  obtain ⟨t', hrun, rfl⟩ := built.entry_eq
  unfold bindEntry at hrun
  cases hentry : c.program.symbols.entry? with
  | none =>
    rw [hentry] at hrun
    obtain ⟨rfl, rfl⟩ := EStateM.Result.ok.inj hrun
    exact ⟨tidy, unchanged rfl (by simp [EntryOwes, hentry])⟩
  | some entry =>
    rw [hentry] at hrun
    obtain ⟨result, t₁, hresult, hrun⟩ := exists_of_run_bind hrun
    obtain ⟨x, hx⟩ := SymbolTable.exists_of_lt (Program.entry?_lt formed hentry)
    cases hmethod : x.kind.method? with
    | none =>
      have hdata : c.program.symbols.method? entry = .ok none := by
        rw [Program.method?_eq hx, hmethod]
      obtain ⟨region, t₂, hregion, hresult⟩ := exists_of_run_bind hresult
      obtain ⟨tidy₂, -, -⟩ :=
        Says.regions (Program.bodyChain_carrying entry) t region t₂ tidy hregion
      rw [hdata] at hresult
      obtain ⟨rfl, rfl⟩ : result = none ∧ t₂ = t₁ := by
        cases region <;> exact ⟨(EStateM.Result.ok.inj hresult).1.symm,
          (EStateM.Result.ok.inj hresult).2⟩
      obtain ⟨rfl, rfl⟩ := EStateM.Result.ok.inj hrun
      exact ⟨tidy₂, unchanged rfl (by simp [EntryOwes, hentry, hdata])⟩
    | some data =>
      have hkind := Program.method?_eq_some hmethod
      have hdata : c.program.symbols.method? entry = .ok (some data) := by
        rw [Program.method?_eq hx, hmethod]
      obtain ⟨e, _, _, _, rfl, -⟩ := Program.bindBody_eq_ok formed hx built.sound.regions hkind
        (by simp [hentry]) hresult
      obtain ⟨tidy₁, htells⟩ := Program.tells_of_bindBody formed hx hkind (fun _ => hentry)
        built.sound.regions tidy hresult
      obtain ⟨region, hregion, htells⟩ := htells e rfl
      obtain ⟨rfl, rfl⟩ := EStateM.Result.ok.inj hrun
      refine ⟨tidy₁, ?_⟩
      have hitems : ((CodeParts.ofPieces pieces).addEntry c.options.script entry e).diagnostics.items =
          pieces.flatMap (·.diagnostics.items) ++ e.diagnostics.items := by
        unfold CodeParts.addEntry
        split <;> rfl
      rw [hitems]
      refine (hpieces.append htells).owes fun d => ?_
      simp [EntryOwes, hentry, hdata, hregion]

end built

/-- The code that symbols and global statements owe for is all code. -/
theorem codeOwes_iff_symbols (formed : c.program.Formed) (d : Diagnostic) :
    CodeOwes c.program d ↔
      (∃ x ∈ c.workList, SymbolOwes c.program x d) ∨ EntryOwes c.program d := by
  constructor
  · rintro ⟨region, root, chain, node, hstart, howed⟩
    cases hstart with
    | @body method data region node hdata hbody hregion =>
      obtain ⟨x, hx, hkind⟩ := Program.exists_of_method? hdata
      have hid := (formed.table.entry hx).id_eq
      refine .inl ⟨x, List.mem_filter.2 ⟨Array.mem_toList_iff.2 (Array.mem_of_getElem? hx), ?_⟩,
        data, _, region, hkind, hbody, hid.symm ▸ hregion, howed⟩
      rw [hkind]
      exact Option.isSome_iff_exists.2 ⟨_, hbody⟩
    | @global entry data region node hentry hdata hisEntry hregion hmem =>
      refine .inr ⟨entry, data, region, hentry, hdata, ?_, ?_⟩
      · unfold Program.bodyScope
        rw [hdata]
        change (if data.isEntry = true then _ else _ : Except Fault _) = _
        rw [if_pos hisEntry, hregion]
      · unfold Program.BodyOwes
        rw [if_pos hisEntry]
        exact ⟨node, hmem, howed⟩
  · rintro (⟨x, hx, data, body, region, hkind, hbody, hregion, howed⟩ |
      ⟨entry, data, region, hentry, hdata, hregion, howes⟩)
    · have hdata : c.program.symbols.method? x.id = .ok (some data) := by
        rw [Program.method?_eq (listed_of_mem formed hx), hkind]
        rfl
      exact ⟨region, body, region, body, .body hdata hbody hregion, howed⟩
    · unfold Program.BodyOwes at howes
      split at howes
      · next hisEntry =>
        obtain ⟨node, hmem, howed⟩ := howes
        unfold Program.bodyScope at hregion
        rw [hdata] at hregion
        change (if data.isEntry = true then _ else _ : Except Fault _) = _ at hregion
        rw [if_pos hisEntry] at hregion
        exact ⟨region, _, _, node, .global hentry hdata hisEntry hregion hmem, howed⟩
      · obtain ⟨body, hbody, howed⟩ := howes
        exact ⟨region, body, region, body, .body hdata hbody hregion, howed⟩

/-- Everything is bound with the findings in order, and what is owed is reported. -/
theorem Compiles.tells (h : Compiles d options c scope F) : Tidy c.program F ∧
    Tells c.program (CodeOwes c.program) scope.diagnostics.items := by
  have formed := h.formed
  obtain ⟨settled, s, pieces, t, parts, built⟩ := h.built
  obtain ⟨tidy, htells⟩ := built.tells_parts h
  obtain ⟨-, hsettled, -⟩ := settle_quiet c {} settled s .empty built.settled_eq
  obtain ⟨entry, complaints, hselect, hitems⟩ := built.diagnostics
  refine ⟨tidy, fun d hd => ?_, fun d hd => ?_⟩
  · have := htells.complete d ((codeOwes_iff_symbols formed d).1 hd)
    simp [hitems, this]
  · simp only [hitems, List.mem_append, List.mem_flatMap] at hd
    rcases hd with ((hd | ⟨q, hq, hd⟩) | hd) | hd
    · obtain ⟨_, sound⟩ := h.declares
      exact .inr (sound.mild d hd).mayOccur
    · exact .inr (hsettled q hq d hd)
    · exact (htells.only d hd).imp_left (codeOwes_iff_symbols formed d).2
    · exact .inr (mayOccur_of_selectEntryPoint hselect d hd)

/-- Every place in code is the place of a bound statement. -/
theorem exists_boundIn_of_inside (h : Compiles d options c scope F) {region chain own : Chain}
    {root start : NodeId} (hstart : c.program.CodeStart region root chain start)
    (hown : chain.innerOrSelf c.program start = .ok own) {place : Place}
    (hinside : Place.Inside c.program ⟨own, start⟩ place) :
    ∃ b, c.BoundIn scope b ∧ b.node = place.node ∧
      b.chain.innerOrSelf c.program b.node = .ok place.scope := by
  have formed := h.formed
  obtain ⟨scopes, first, mapped, hfirst⟩ := hstart.exists_scope formed
  obtain rfl := ok_unique hfirst.inner_eq hown
  obtain ⟨statement, hstarts⟩ := exists_starts h hstart
  obtain ⟨b, hb, hnode, hscoped⟩ : ∃ b, BoundAt.Contains c.program ⟨chain, start, statement⟩ b ∧
      b.node = place.node ∧ Chain.Scoped c.program region scopes b.chain b.node place.scope := by
    induction hinside with
    | refl => exact ⟨_, .refl, rfl, hfirst⟩
    | @tail q r _ hstep ih =>
      obtain ⟨b, hb, hnode, hscoped⟩ := ih
      obtain ⟨kind, hkind, hpart⟩ := hstep.hasStatement
      obtain ⟨part, hmem, rfl⟩ := hstep
      rw [← hnode] at hkind hmem
      have hruns := hb.runs formed.linked mapped hfirst (hstarts.runs h)
      have hparts := hruns.parts formed.linked mapped hscoped hkind
      rw [← List.map_fst_zip (Nat.le_of_eq hparts.length_eq)] at hpart
      obtain ⟨⟨n, bound⟩, hbound, hn⟩ := List.mem_map.1 hpart
      obtain rfl : n = part.node := hn
      exact ⟨⟨q.scope, _, bound⟩, hb.tail ⟨kind, hkind, hscoped.inner_eq, hbound⟩, rfl,
        hscoped.part formed.linked mapped hmem⟩
  exact ⟨b, ⟨_, hstarts, hb⟩, hnode, hscoped.inner_eq⟩

/-- What is owed by all code is what its bound statements owe in their scopes. -/
theorem codeOwes_iff (h : Compiles d options c scope F) (x : Diagnostic) :
    CodeOwes c.program x ↔ ∃ b own, c.BoundIn scope b ∧
      b.chain.innerOrSelf c.program b.node = .ok own ∧ Place.Owes c.program ⟨own, b.node⟩ x := by
  constructor
  · rintro ⟨region, root, chain, node, hstart, own, place, hown, hinside, howes⟩
    obtain ⟨b, hb, hnode, hscope⟩ := exists_boundIn_of_inside h hstart hown hinside
    exact ⟨b, place.scope, hb, hscope, hnode ▸ howes⟩
  · rintro ⟨b, own, hb, hown, howes⟩
    obtain ⟨region, root, scopes, chain, start, first, own', origin⟩ := hb.origin h
    obtain rfl := ok_unique origin.own_eq.inner_eq hown
    exact ⟨region, root, chain, start, origin.codeStart, first, _, origin.first_eq.inner_eq,
      origin.inside, howes⟩

end Compilation

/-! ### Places of diagnostics -/

namespace Compilation

variable {d : Document} {options : Options} {c : Compilation} {scope : GlobalScope} {F : Findings}

/-- A message is reported about a node. -/
def ReportsAt (c : Compilation) (scope : GlobalScope) (message : Message) (n : NodeId) : Prop :=
  ∃ x ∈ scope.diagnostics.items, x.message = message ∧ ∃ span, c.program.tree.span n = .ok span ∧
    x.span = some span

/-- What a statement owes is about its node. -/
theorem span_of_owes {place : Place} {x : Diagnostic} (h : place.Owes p x) :
    ∃ span, p.tree.span place.node = .ok span ∧ x.span = some span := by
  have placed : ∀ {message : Message} {args : List String},
      p.diagnostic place.node message args = .ok x →
      ∃ span, p.tree.span place.node = .ok span ∧ x.span = some span := by
    intro message args hx
    obtain ⟨span, hspan, hx⟩ := exists_of_bind_eq_ok hx
    exact ⟨span, hspan, by rw [← Except.ok.inj hx]; rfl⟩
  unfold Place.Owes at h
  split at h
  · exact placed h.2
  · exact placed h.2
  · exact placed h.2
  · exact placed h.2
  · exact h.elim

/-- A message about jumps is reported at the nodes of statements that owe it. -/
theorem reportsAt_iff (h : Compiles d options c scope F) {message : Message}
    (hmessage : ¬ message.MayOccur c.program) (n : NodeId) :
    c.ReportsAt scope message n ↔ ∃ b own x, c.BoundIn scope b ∧ b.node = n ∧
      b.chain.innerOrSelf c.program n = .ok own ∧ Place.Owes c.program ⟨own, n⟩ x ∧
        x.message = message := by
  obtain ⟨-, htells⟩ := h.tells
  constructor
  · rintro ⟨x, hx, rfl, span, hspan, hplace⟩
    obtain ⟨b, own, hb, hown, howes⟩ :=
      (codeOwes_iff h x).1 ((htells.only x hx).resolve_right hmessage)
    obtain ⟨span', hspan', hplace'⟩ := span_of_owes howes
    obtain rfl := Option.mem_unique hplace hplace'
    obtain rfl := Tree.span_injective h.accepted hspan hspan'
    exact ⟨b, own, x, hb, rfl, hown, howes, rfl⟩
  · rintro ⟨b, own, x, hb, rfl, hown, howes, rfl⟩
    exact ⟨x, htells.complete x ((codeOwes_iff h x).2 ⟨b, own, hb, hown, howes⟩), rfl,
      span_of_owes howes⟩

/-- A message is reported about the nodes with a property, and about nothing else. -/
structure ReportsExactly (c : Compilation) (scope : GlobalScope) (message : Message)
    (P : NodeId → Prop) : Prop where
  at_iff : ∀ n, c.ReportsAt scope message n ↔ P n
  exists_place : ∀ x ∈ scope.diagnostics.items, x.message = message →
    ∃ n span, P n ∧ c.program.tree.span n = .ok span ∧ x.span = some span

/-- What is reported about jumps can be read off the scopes of the bound statements. -/
theorem reportsExactly_of_owes (h : Compiles d options c scope F) {message : Message}
    (hmessage : ¬ message.MayOccur c.program) {P : NodeId → Prop}
    (howes : ∀ {own n}, Chain.Fits c.program own n →
      ((∃ x, Place.Owes c.program ⟨own, n⟩ x ∧ x.message = message) ↔ P n)) :
    c.ReportsExactly scope message fun n => c.program.InCode n ∧ P n := by
  have owes : ∀ {b own x}, c.BoundIn scope b → b.chain.innerOrSelf c.program b.node = .ok own →
      Place.Owes c.program ⟨own, b.node⟩ x → x.message = message → P b.node := by
    intro b own x hb hown hx hxm
    obtain ⟨own', hown', hfits⟩ := hb.fits h
    obtain rfl := ok_unique hown hown'
    exact (howes hfits).1 ⟨x, hx, hxm⟩
  have at_iff : ∀ n, c.ReportsAt scope message n ↔ c.program.InCode n ∧ P n := by
    intro n
    rw [reportsAt_iff h hmessage]
    constructor
    · rintro ⟨b, own, x, hb, rfl, hown, hx, hxm⟩
      exact ⟨hb.inCode h, owes hb hown hx hxm⟩
    · rintro ⟨hcode, hP⟩
      obtain ⟨b, hb, rfl⟩ := exists_boundIn h hcode
      obtain ⟨own, hown, hfits⟩ := hb.fits h
      obtain ⟨x, hx⟩ := (howes hfits).2 hP
      exact ⟨b, own, x, hb, rfl, hown, hx⟩
  refine ⟨at_iff, ?_⟩
  rintro x hx rfl
  obtain ⟨b, own, hb, hown, hx'⟩ :=
    (codeOwes_iff h x).1 ((h.tells.2.only x hx).resolve_right hmessage)
  obtain ⟨span, hspan, hplace⟩ := span_of_owes hx'
  exact ⟨b.node, span, ⟨hb.inCode h, owes hb hown hx' rfl⟩, hspan, hplace⟩

end Compilation
end Bindery
