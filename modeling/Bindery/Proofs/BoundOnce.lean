import Bindery.Proofs.Schedules

/-! # Every piece of code is bound once

The code of symbols is bound in the order of declarations and the global statements after it, as the
code of the entry method.  The entry method is found by its name.  Unless another member at the top
has that name (`SymbolTable.EntryNameFree`), it is found exactly if there are global statements, and
a global scope consists of the pieces, each of them once (`Compilation.code_bound_once`). -/

namespace Bindery

/-! ### The entry method -/

/-- No member at the top has the name of the entry method but that method itself. -/
def SymbolTable.EntryNameFree (t : SymbolTable) : Prop :=
  ∀ s ∈ t.symbols.toList, s.containing = some global → s.name = entryName →
    s.kind.isMember = true → s.kind.isEntry = true

instance (t : SymbolTable) : Decidable t.EntryNameFree :=
  inferInstanceAs (Decidable (∀ s ∈ t.symbols.toList, _))

namespace SymbolTable

variable {t : SymbolTable} {tree : Tree}

/-- What the name of the entry method leads to, if nothing else has it. -/
theorem EntryNameFree.isEntry (free : t.EntryNameFree) (formed : t.Formed tree) {entry : Nat}
    (h : t.entry? = some entry) : ∃ s, t.symbols[entry]? = some s ∧ s.kind.isEntry = true := by
  obtain ⟨s, hs, hplace, hname, hmember⟩ := formed.mem_lookup (List.mem_of_head? h)
  exact ⟨s, hs, free s (Array.mem_toList_iff.2 (Array.mem_of_getElem? hs)) hplace hname hmember⟩

end SymbolTable

namespace Program

variable {p : Program}

/-! ### What a piece holds -/

theorem regions_eq_ok {α : Type} {m : RegionM α} {a b : α} (hm : p.Fetches m a) {t t' : BindState}
    (hcache : p.CacheSound t.findings.regions) (h : BindM.regions m t = .ok b t') : b = a := by
  have hends := hm t.findings.regions hcache
  unfold BindM.regions at h
  cases hrun : m.run t.findings.regions with
  | ok value regions =>
    rw [hrun] at h
    obtain ⟨rfl, -⟩ := EStateM.Result.ok.inj h
    exact (hends.of_ok hrun).1
  | error fault regions => simp [hrun] at h

theorem value_of_isolated {α : Type} {m : BindM α} {t t' : BindState} {e : Evaluated α}
    (h : BindM.isolated m t = .ok e t') : ∃ s s', m s = .ok e.value s' := by
  obtain ⟨_, s₁, -, h⟩ := exists_of_run_bind h
  obtain ⟨_, s₂, -, h⟩ := exists_of_run_bind h
  obtain ⟨value, s₃, hvalue, h⟩ := exists_of_run_bind h
  obtain ⟨_, s₄, -, h⟩ := exists_of_run_bind h
  obtain ⟨_, -, rfl⟩ := exists_of_run_bind_pure h
  exact ⟨s₂, s₃, hvalue⟩

variable (formed : p.Formed) {i : Nat} {s : Symbol} (hs : p.symbols.symbols[i]? = some s)
  {t t' : BindState} (hcache : p.CacheSound t.findings.regions)
include formed hs hcache

/-- A method has a body, given by the global statements if it is the entry method. -/
theorem bindBody_eq_ok {data : MethodData} (hkind : s.kind = .method data)
    (hentry : data.isEntry = true → p.symbols.entry? ≠ none) {result : Option (Evaluated Block)}
    (h : p.bindBody i t = .ok result t') :
    ∃ e region u u', result = some e ∧ p.bodyScope i = .ok (some region) ∧
      if data.isEntry then p.bindGlobalStatements p.answer region u = .ok e.value u'
      else ∃ body, data.body = some body ∧ p.bindBlock p.answer region body u = .ok e.value u' := by
  obtain ⟨found, hscope, hfetches, hfound, hnone⟩ := bodyChain_spec formed hs hkind
  obtain ⟨region, s₁, hregion, h⟩ := exists_of_run_bind h
  obtain rfl := regions_eq_ok hfetches hcache hregion
  rw [method?_eq hs, hkind] at h
  cases region with
  | none => exact absurd (hnone rfl).1 (hentry (hnone rfl).2)
  | some chain =>
    have hfound := hfound chain rfl
    change (if data.isEntry = true then _ else _ : BindM _) s₁ = _ at h
    split at hfound
    · next hisEntry =>
      rw [if_pos hisEntry] at h
      obtain ⟨e, he, rfl⟩ := exists_of_run_bind_pure h
      obtain ⟨u, u', hrun⟩ := value_of_isolated he
      refine ⟨e, chain, u, u', rfl, hscope, ?_⟩
      rw [if_pos hisEntry]
      exact hrun
    · next hisEntry =>
      obtain ⟨body, hbody, -⟩ := hfound
      rw [if_neg hisEntry, hbody] at h
      obtain ⟨e, he, rfl⟩ := exists_of_run_bind_pure h
      obtain ⟨u, u', hrun⟩ := value_of_isolated he
      refine ⟨e, chain, u, u', rfl, hscope, ?_⟩
      rw [if_neg hisEntry]
      exact ⟨body, hbody, hrun⟩

theorem bindInitializer_eq_ok {data : FieldData} (hkind : s.kind = .field data)
    (hinitializer : data.initializer.isSome = true) {result : Option (Evaluated Expr)}
    (h : p.bindInitializer i t = .ok result t') : ∃ e, result = some e := by
  obtain ⟨found, -, hfetches, hfound, hnone⟩ := initializerChain_spec formed hs
  obtain ⟨region, s₁, hregion, h⟩ := exists_of_run_bind h
  obtain rfl := regions_eq_ok hfetches hcache hregion
  obtain ⟨node, hnode⟩ := Option.isSome_iff_exists.1 hinitializer
  have hfield : s.kind.field?.bind (·.initializer) = some node := by rw [hkind]; exact hnode
  rw [field?_eq hs] at h
  cases region with
  | none => simp [hnone rfl] at hfield
  | some chain =>
    obtain ⟨data', s₂, hdata, h⟩ := exists_of_run_bind h
    obtain ⟨rfl, rfl⟩ := EStateM.Result.ok.inj hdata
    simp only [hfield] at h
    obtain ⟨target, s₂, -, h⟩ := exists_of_run_bind h
    obtain ⟨e, -, rfl⟩ := exists_of_run_bind_pure h
    exact ⟨e, rfl⟩

end Program

namespace Compilation

/-! ### Putting pieces together -/

namespace BoundCode

def body? : BoundCode → Option (SymbolId × Block)
  | body method block => some (method, block)
  | initializer .. => none

def initializer? : BoundCode → Option (SymbolId × Expr)
  | body .. => none
  | initializer field value => some (field, value)

@[simp] theorem body?_body (method : SymbolId) (block : Block) :
    (body method block).body? = some (method, block) := rfl

@[simp] theorem body?_initializer (field : SymbolId) (value : Expr) :
    (initializer field value).body? = none := rfl

@[simp] theorem initializer?_body (method : SymbolId) (block : Block) :
    (body method block).initializer? = none := rfl

@[simp] theorem initializer?_initializer (field : SymbolId) (value : Expr) :
    (initializer field value).initializer? = some (field, value) := rfl

/-- A body for a method, an initializer for a field. -/
def IsCodeOf (x : Symbol) (code : BoundCode) : Prop :=
  match x.kind with
  | .method _ => ∃ block, code = .body x.id block
  | .field _ => ∃ value, code = .initializer x.id value
  | _ => False

end BoundCode

/-- A symbol with code gives a piece of code. -/
theorem bindCode_eq_ok {p : Program} (formed : p.Formed) {x : Symbol} (hx : Listed p x)
    (hcode : x.kind.hasCode = true) {t t' : BindState} (hcache : p.CacheSound t.findings.regions)
    {result : Option (Evaluated BoundCode)} (h : bindCode p x t = .ok result t') :
    ∃ piece, result = some piece ∧ piece.value.IsCodeOf x := by
  unfold bindCode at h
  unfold BoundCode.IsCodeOf
  cases hkind : x.kind with
  | method data =>
    rw [hkind] at h hcode
    have hbody : data.body.isSome = true := hcode
    have hentry := formed.not_isEntry_of_hasBody hx hkind (by rw [hkind]; exact hbody)
    dsimp only at h
    rw [if_pos hbody] at h
    obtain ⟨result, t₁, hresult, h⟩ := exists_of_run_bind h
    obtain ⟨e, _, _, _, rfl, -⟩ := Program.bindBody_eq_ok formed hx hcache hkind
      (by simp [hentry]) hresult
    obtain ⟨rfl, -⟩ := EStateM.Result.ok.inj h
    exact ⟨_, rfl, e.value, rfl⟩
  | field data =>
    rw [hkind] at h hcode
    have hinitializer : data.initializer.isSome = true := (Bool.and_eq_true _ _ ▸ hcode).2
    dsimp only at h
    rw [if_pos (by exact hcode)] at h
    obtain ⟨result, t₁, hresult, h⟩ := exists_of_run_bind h
    obtain ⟨e, rfl⟩ := Program.bindInitializer_eq_ok formed hx hcache hkind hinitializer hresult
    obtain ⟨rfl, -⟩ := EStateM.Result.ok.inj h
    exact ⟨_, rfl, e.value, rfl⟩
  | _ => simp [hkind, SymbolKind.hasCode] at hcode

variable {pieces : List (Evaluated BoundCode)}

/-- Among the pieces are the bodies of methods and the initializers of fields, in their order. -/
theorem map_fst_pieces {list : List Symbol}
    (h : List.Forall₂ (fun x piece => piece.value.IsCodeOf x) list pieces) :
    (pieces.filterMap (·.value.body?)).map (·.1) = (list.filter (·.isMethod)).map (·.id) ∧
      (pieces.filterMap (·.value.initializer?)).map (·.1) =
        (list.filter (·.isField)).map (·.id) := by
  induction h with
  | nil => exact ⟨rfl, rfl⟩
  | @cons x piece rest pieces hpiece _ ih =>
    unfold BoundCode.IsCodeOf at hpiece
    cases hkind : x.kind <;> rw [hkind] at hpiece
    case method data =>
      have hmethod : x.isMethod = true := by simp [Symbol.isMethod, hkind]
      have hfield : x.isField = false := by simp [Symbol.isField, hkind]
      obtain ⟨block, hblock⟩ := hpiece
      simp [hblock, hmethod, hfield, ih]
    case field data =>
      have hmethod : x.isMethod = false := by simp [Symbol.isMethod, hkind]
      have hfield : x.isField = true := by simp [Symbol.isField, hkind]
      obtain ⟨value, hvalue⟩ := hpiece
      simp [hvalue, hmethod, hfield, ih]
    all_goals exact hpiece.elim

theorem insertBody_of_notMem {bodies : List (SymbolId × Block)} {method : SymbolId}
    (h : method ∉ bodies.map (·.1)) (block : Block) :
    insertBody bodies method block = bodies ++ [(method, block)] := by
  have hany : ¬ (bodies.any fun entry => entry.1 = method) = true := by
    intro hany
    obtain ⟨entry, hentry, heq⟩ := List.any_eq_true.1 hany
    exact h (List.mem_map.2 ⟨entry, hentry, of_decide_eq_true heq⟩)
  rw [insertBody, if_neg hany]

variable {parts : CodeParts}

/-- Pieces of different methods are appended one by one. -/
theorem foldl_add
    (h : (parts.bodies.map (·.1) ++ (pieces.filterMap (·.value.body?)).map (·.1)).Nodup) :
    pieces.foldl CodeParts.add parts = {
      diagnostics := ⟨parts.diagnostics.items ++ pieces.flatMap (·.diagnostics.items)⟩
      bodies := parts.bodies ++ pieces.filterMap (·.value.body?)
      initializers := parts.initializers ++ pieces.filterMap (·.value.initializer?)
      statements := parts.statements } := by
  induction pieces generalizing parts with
  | nil => simp
  | cons piece rest ih =>
    rw [List.foldl_cons]
    cases hvalue : piece.value with
    | body method block =>
      simp only [List.filterMap_cons, hvalue, BoundCode.body?_body, List.map_cons] at h
      have hadd : parts.add piece = { parts with
          diagnostics := parts.diagnostics.append piece.diagnostics
          bodies := parts.bodies ++ [(method, block)] } := by
        have hnotMem : method ∉ parts.bodies.map (·.1) := fun hmem =>
          (List.nodup_append.1 h).2.2 method hmem method List.mem_cons_self rfl
        unfold CodeParts.add
        rw [hvalue]
        dsimp only
        rw [insertBody_of_notMem hnotMem]
      rw [hadd, ih (by simpa using h)]
      simp [hvalue]
    | initializer field value =>
      simp only [List.filterMap_cons, hvalue, BoundCode.body?_initializer] at h
      have hadd : parts.add piece = { parts with
          diagnostics := parts.diagnostics.append piece.diagnostics
          initializers := parts.initializers ++ [(field, value)] } := by
        unfold CodeParts.add
        rw [hvalue]
      rw [hadd, ih (by simpa using h)]
      simp [hvalue]

/-- The parts that some pieces make. -/
def CodeParts.ofPieces (pieces : List (Evaluated BoundCode)) : CodeParts where
  diagnostics := ⟨pieces.flatMap (·.diagnostics.items)⟩
  bodies := pieces.filterMap (·.value.body?)
  initializers := pieces.filterMap (·.value.initializer?)

theorem foldl_addSome (h : ((pieces.filterMap (·.value.body?)).map (·.1)).Nodup) :
    (pieces.map some).foldl CodeParts.addSome {} = .ofPieces pieces := by
  rw [List.foldl_map]
  exact foldl_add (by simpa using h)

/-! ### The global scope -/

section

variable {c : Compilation} (formed : c.program.Formed)
include formed

theorem workList_ids_nodup (test : Symbol → Bool) : ((c.workList.filter test).map (·.id)).Nodup := by
  refine ((workList_nodup formed).filter test).map_on fun x hx y hy hid => ?_
  by_contra hne
  exact (listed_of_mem formed (List.mem_of_mem_filter hx)).id_ne
    (listed_of_mem formed (List.mem_of_mem_filter hy)) hne hid

/-- The pieces of the symbols with code. -/
theorem exists_pieces {s t : BindState} (ready : Ready c.program s)
    {results : List (Option (Evaluated BoundCode))}
    (h : c.workList.mapM (bindCode c.program) s = .ok results t) :
    Sound c.program t.findings ∧ ∃ pieces, results = pieces.map some ∧
      List.Forall₂ (fun x piece => (bindCode c.program x).value s = .ok (some piece) ∧
        piece.value.IsCodeOf x) c.workList pieces := by
  rcases run_items formed ready (List.Subset.refl _) (workList_nodup formed) with
    ⟨results', t', ht', halone, hafter⟩ | ⟨⟨t', ht'⟩, -⟩
  · obtain ⟨rfl, rfl⟩ := EStateM.Result.ok.inj (h.symm.trans ht')
    refine ⟨hafter.sound, ?_⟩
    have gives : ∀ x ∈ c.workList, ∀ result, (bindCode c.program x).value s = .ok result →
        ∃ piece, result = some piece ∧ piece.value.IsCodeOf x := by
      intro x hx result hresult
      unfold BindM.value at hresult
      cases hrun : bindCode c.program x s with
      | ok found s' =>
        rw [hrun] at hresult
        obtain rfl := Except.ok.inj hresult
        exact bindCode_eq_ok formed (listed_of_mem formed hx) (List.mem_filter.1 hx).2
          ready.sound.regions hrun
      | error fault s' => simp [hrun] at hresult
    generalize c.workList = list at halone gives
    clear h ht' hafter
    induction list generalizing results with
    | nil =>
      obtain rfl := Except.ok.inj halone
      exact ⟨[], rfl, .nil⟩
    | cons x rest ih =>
      rw [List.mapM_cons] at halone
      obtain ⟨result, hresult, halone⟩ := exists_of_bind_eq_ok halone
      obtain ⟨rest', hrest, rfl⟩ := exists_of_bind_pure_eq_ok halone
      obtain ⟨piece, rfl, hpiece⟩ := gives x (by simp) result hresult
      obtain ⟨pieces, rfl, hpieces⟩ := ih hrest fun y hy => gives y (by simp [hy])
      exact ⟨piece :: pieces, rfl, .cons ⟨hresult, hpiece⟩ hpieces⟩
  · simp [ht'] at h

end

theorem items_foldl_append (queues : List DiagnosticQueue) (q : DiagnosticQueue) :
    (queues.foldl (·.append ·) q).items = q.items ++ queues.flatMap (·.items) := by
  induction queues generalizing q with
  | nil => simp
  | cons first rest ih => simp [ih]

theorem items_foldl_push (list : List Diagnostic) (q : DiagnosticQueue) :
    (list.foldl (·.push ·) q).items = q.items ++ list := by
  induction list generalizing q with
  | nil => simp
  | cons first rest ih => simp [ih]

variable {scope : GlobalScope} {c : Compilation}

theorem bind_of_run {F : Findings} (h : c.run = .ok (scope, F)) : ∃ t, c.bind {} = .ok scope t := by
  unfold run EStateM.run at h
  cases hbind : c.bind {} with
  | ok found t =>
    rw [hbind] at h
    obtain ⟨rfl, -⟩ := Prod.mk.inj (Except.ok.inj h)
    exact ⟨t, rfl⟩
  | error fault t => simp [hbind] at h

/-- The global scope takes over the parts as they are. -/
theorem assemble_eq_ok {settled : List DiagnosticQueue}
    {t t' : BindState} (h : c.assemble settled parts t = .ok scope t') :
    scope.bodies = parts.bodies ∧ scope.initializers = parts.initializers ∧
      scope.statements = parts.statements ∧
      ∃ entry complaints, c.selectEntryPoint = .ok (entry, complaints) ∧
        scope.diagnostics.items = c.declarationDiagnostics.items ++ settled.flatMap (·.items) ++
          parts.diagnostics.items ++ complaints := by
  unfold assemble at h
  cases hselect : c.selectEntryPoint with
  | error fault =>
    rw [hselect] at h
    cases h
  | ok selected =>
    rw [hselect] at h
    obtain ⟨_, s₁, hselected, h⟩ := exists_of_run_bind h
    obtain ⟨rfl, rfl⟩ := EStateM.Result.ok.inj hselected
    obtain ⟨methods, s₂, -, h⟩ := exists_of_run_bind h
    obtain ⟨fields, s₃, -, h⟩ := exists_of_run_bind h
    obtain ⟨types, -, rfl⟩ := exists_of_run_bind_pure h
    refine ⟨rfl, rfl, rfl, selected.1, selected.2, rfl, ?_⟩
    simp only [items_foldl_push, DiagnosticQueue.items_append, items_foldl_append]

/-! ### What a global scope is built from -/

/-- The runs behind a global scope: declarations are settled, the pieces are bound one by one, and
the entry method after them. -/
structure Built (c : Compilation) (scope : GlobalScope) (F : Findings)
    (settled : List DiagnosticQueue) (s : BindState) (pieces : List (Evaluated BoundCode))
    (t : BindState) (parts : CodeParts) : Prop where
  settled_eq : c.settle {} = .ok settled s
  ready : Ready c.program s
  pieces_eq : List.Forall₂ (fun x piece => (bindCode c.program x).value s = .ok (some piece) ∧
    piece.value.IsCodeOf x) c.workList pieces
  work_eq : c.workList.mapM (bindCode c.program) s = .ok (pieces.map some) t
  sound : Sound c.program t.findings
  entry_eq : ∃ t', c.bindEntry (.ofPieces pieces) t = .ok parts t' ∧ t'.findings = F
  bodies : scope.bodies = parts.bodies
  initializers : scope.initializers = parts.initializers
  statements : scope.statements = parts.statements
  diagnostics : ∃ entry complaints, c.selectEntryPoint = .ok (entry, complaints) ∧
    scope.diagnostics.items = c.declarationDiagnostics.items ++ settled.flatMap (·.items) ++
      parts.diagnostics.items ++ complaints

variable {t : BindState} {F : Findings}

theorem findings_of_run {found : GlobalScope} (h : c.run = .ok (scope, F))
    (hbind : c.bind {} = .ok found t) : t.findings = F := by
  unfold run EStateM.run at h
  rw [hbind] at h
  exact (Prod.mk.inj (Except.ok.inj h)).2

/-- Putting a global scope together asks questions only. -/
theorem assemble_state {settled : List DiagnosticQueue} {parts : CodeParts} {t' : BindState}
    (h : c.assemble settled parts t = .ok scope t') :
    t' = t := by
  obtain ⟨⟨_, _⟩, -, h⟩ := exists_of_run_lift h
  obtain ⟨_, -, h⟩ := exists_of_run_lift h
  obtain ⟨_, -, h⟩ := exists_of_run_lift h
  obtain ⟨_, -, h⟩ := exists_of_run_lift h
  exact (EStateM.Result.ok.inj h).2.symm

variable {options : Options}

theorem Compiles.built {d : Document} (h : Compiles d options c scope F) :
    ∃ settled s pieces t parts, c.Built scope F settled s pieces t parts := by
  have formed := h.formed
  obtain ⟨t, hbind⟩ := bind_of_run h.bound
  have hfindings := findings_of_run h.bound hbind
  obtain ⟨settled, s, hsettle, hbind⟩ := exists_of_run_bind hbind
  obtain ⟨parts, t₁, hparts, hbind⟩ := exists_of_run_bind hbind
  rw [bindAllCode_eq] at hparts
  obtain ⟨results, t₂, hresults, hparts⟩ := exists_of_run_bind hparts
  have ready := ready_of_settle formed hsettle
  obtain ⟨hsound, pieces, rfl, hpieces⟩ := exists_pieces formed ready hresults
  have hmethods := (map_fst_pieces (hpieces.imp fun _ _ h => h.2)).1
  rw [foldl_addSome (hmethods ▸ workList_ids_nodup formed (·.isMethod))] at hparts
  obtain ⟨hbodies, hinitializers, hstatements, hdiagnostics⟩ := assemble_eq_ok hbind
  exact ⟨settled, s, pieces, t₂, parts, hsettle, ready, hpieces, hresults, hsound,
    ⟨t₁, hparts, assemble_state hbind ▸ hfindings⟩, hbodies, hinitializers, hstatements, hdiagnostics⟩

end Compilation
end Bindery
