import Bindery.Proofs.Contracts
import Bindery.Proofs.Typing

/-! # Typing of bound code

`Statement.Typed p F R owner s` is the typing rule of a statement of the function `owner`, for the
statements in it as well: its expressions obey theirs, conditions are of type `bool`, and a value
that is returned has the type that the function returns.  Of a local and the value that it starts
with, `R` holds.

All code of a global scope is typed (`Compilation.bound_code_wellTyped`).  That a local starts with
a value of its type (`Local.StartsTyped`) is only so where no code is bound twice: a local keeps the
type that it got first. -/

namespace Bindery

variable (p : Program) (F : Findings)

/-! ### Rules -/

/-- The type that a function returns. -/
def ReturnsType : Member → Ty → Prop
  | .symbol method, t => ∃ known, F.signatures.get? method = some known ∧ known.value.returnType = t
  | .function function, t => ∃ signature, F.functionSignature? function = some signature ∧
      signature.returnType = t

/-- The expression has the type, where neither is an error. -/
def Expr.HasType (e : Expr) (t : Ty) : Prop := e.isError = false → t.isError = false → e.type = t

/-- The value that a local starts with has the type of the local. -/
def Local.StartsTyped (target : Local) (e : Expr) : Prop :=
  ∀ t, F.localType? target = some t → e.HasType t

/-- The statement of a function obeys the typing rules, and `R` holds of every local in it with the
value that it starts with. -/
inductive Statement.Typed (R : Local → Expr → Prop) : Member → Statement → Prop
  | block (h : ∀ s ∈ statements, Typed R owner s) : Typed R owner (.block statements locals)
  | localDeclaration (hvalue : ∀ e ∈ value, e.Typed p F ∧ R target e) :
      Typed R owner (.localDeclaration target value)
  | localFunction (h : ∀ s ∈ statements, Typed R (.function function) s) :
      Typed R owner (.localFunction function statements locals)
  | expression (h : e.Typed p F) : Typed R owner (.expression e)
  | ifElse (h : e.Typed p F) (hbool : e.HasType (.primitive .bool))
      (hthen : Typed R owner thenStatement) (helse : ∀ s ∈ elseStatement.toList, Typed R owner s) :
      Typed R owner (.ifElse e thenStatement elseStatement)
  | whileLoop (h : e.Typed p F) (hbool : e.HasType (.primitive .bool)) (hbody : Typed R owner body) :
      Typed R owner (.whileLoop e body breakLabel continueLabel)
  | breakTo : Typed R owner (.breakTo label)
  | continueTo : Typed R owner (.continueTo label)
  | goto : Typed R owner (.goto label)
  | returnNothing : Typed R owner (.returnValue none)
  | returnValue (h : e.Typed p F) (htype : ∀ t, ReturnsType F owner t → e.HasType t) :
      Typed R owner (.returnValue (some e))
  | tryCatch (hbody : Typed R owner body) (hcatch : ∀ s ∈ catchBody.toList, Typed R owner s)
      (hfinally : ∀ s ∈ finallyBody.toList, Typed R owner s) :
      Typed R owner (.tryCatch body catchBody finallyBody)
  | labeled (h : Typed R owner statement) : Typed R owner (.labeled label statement)
  | error : Typed R owner (.error node)

/-- The code of a global scope obeys the typing rules. -/
structure GlobalScope.WellTyped (scope : GlobalScope) (R : Local → Expr → Prop) : Prop where
  bodies : ∀ entry ∈ scope.bodies, ∀ s ∈ entry.2.statements, s.Typed p F R (.symbol entry.1)
  initializers : ∀ entry ∈ scope.initializers, entry.2.Typed p F ∧
    ∀ known, F.fieldTypes.get? entry.1 = some known → entry.2.HasType known.value
  statements : ∀ s ∈ scope.statements, ∃ entry, p.symbols.entry? = some entry ∧
    s.Typed p F R (.symbol entry)

variable {p F}

/-! ### Code -/

/-- The type that a function returns is known. -/
def OwnerKnown (f : Findings) : Member → Prop
  | .symbol method => ∃ known, f.signatures.get? method = some known
  | .function function => ∃ signature, f.functionSignature? function = some signature

variable {block : Block} {f : Findings} {once : Prop} {method : SymbolId} {trace : Trace}

theorem OwnerKnown.grows {g : Findings} {owner : Member} (h : OwnerKnown f owner) (hg : f.Grows g) :
    OwnerKnown g owner := by
  cases owner with
  | symbol method => exact h.imp fun _ hk => hg.signatures hk
  | function function => exact h.imp fun _ hk => hg.functionSignatures hk

/-- What a `return` sees of a known function is what the function returns. -/
theorem SeesReturn.eq {owner : Member} {t u : Ty} (h : SeesReturn p F f owner t)
    (hf : OwnerKnown f owner) (hu : ReturnsType F owner u) : t = u := by
  cases owner with
  | symbol method =>
    obtain ⟨known, hknown⟩ := hf
    obtain ⟨_, hF, rfl⟩ := hu
    obtain ⟨_, ⟨_, hseen, rfl⟩ | ⟨hnone, -⟩, rfl⟩ := h
    · rw [Option.mem_unique hseen hF]
    · simp [hnone] at hknown
  | function function =>
    obtain ⟨signature, hsignature⟩ := hf
    obtain ⟨_, hF, rfl⟩ := hu
    obtain ⟨g, hg, hgF, rfl⟩ := h
    have hseen : g.functionSignature? function = some signature := hg.functionSignatures hsignature
    have hlater : F.functionSignature? function = some signature := hgF.functionSignatures hseen
    rw [Option.mem_unique hF hlater, hseen]
    rfl

def Code.owner : Code → Member
  | .statement owner .. | .statements owner .. | .block owner .. => owner

variable (p F) in
def Code.Typed (R : Local → Expr → Prop) : Code → Prop
  | .statement owner _ _ s => s.Typed p F R owner
  | .statements owner _ _ list => ∀ s ∈ list, s.Typed p F R owner
  | .block owner _ _ bound => ∀ s ∈ bound.statements, s.Typed p F R owner

variable {node : Option NodeId} {declared : Option Ty} {value : Option Expr}

theorem Initializes.value_typed {chain : Chain}
    (h : Initializes p F f chain declared node value trace) :
    ∀ e ∈ value, e.Typed p F := by
  cases h with
  | none => simp
  | typed h =>
    rintro _ ⟨rfl⟩
    exact h.typed.1
  | untyped h =>
    rintro _ ⟨rfl⟩
    exact h.typed

/-- A local gets the type of the value that it starts with. -/
theorem TypesLocal.hasType {chain : Chain} {first second : Trace} {found : Ty}
    (h : TypesLocal declared value found second)
    (hvalue : Initializes p F f chain declared node value first) :
    ∀ e ∈ value, e.HasType found := by
  rintro e ⟨rfl⟩ he ht
  cases h with
  | declared =>
    cases hvalue with
    | typed h => exact h.typed.2 he ht
  | inferred => rfl
  | refused => simp [Ty.isError, Ty.error] at ht

section code

variable {R : Local → Expr → Prop}
  (hR : ∀ {target e}, (once → Local.StartsTyped F target e) → R target e)
include hR

/-- Code that was bound obeys the typing rules.  A local has the type of its value if that was
published only once. -/
theorem Binds.typed {code : Code} (h : Binds p once F f code trace) (hf : OwnerKnown f code.owner) :
    code.Typed p F R := by
  induction h with
  | noStatements => simp [Code.Typed]
  | nextStatement _ hg _ _ ih ihrest =>
    intro s hs
    rcases List.mem_cons.1 hs with rfl | hs
    · exact ih hf
    · exact ihrest (hf.grows hg) s hs
  | blockOfStatements _ _ _ _ _ ih => exact ih hf
  | blockOfOne _ _ _ ih =>
    intro s hs
    obtain rfl := List.mem_singleton.1 hs
    exact ih hf
  | block _ _ ih => exact .block (ih hf)
  | localDeclaration _ _ _ _ _ hvalue hfound htype hkept _ =>
    refine .localDeclaration fun e he => ⟨hvalue.value_typed e he, hR fun honce t ht => ?_⟩
    obtain rfl := Option.mem_unique htype ht
    obtain rfl := hkept.resolve_right fun h => h.1 honce
    exact hfound.hasType hvalue e he
  | localFunction _ _ _ _ hsignature _ ih => exact .localFunction (ih hsignature)
  | expression _ _ h => exact .expression h.typed
  | bareExpression _ h => exact .expression h.typed
  | ifElse _ _ hcondition hg _ hh _ ihthen ihelse =>
    exact .ifElse hcondition.typed.1 hcondition.typed.2 (ihthen (hf.grows hg))
      (ihelse (hf.grows (hg.trans hh)))
  | whileLoop _ _ _ hcondition hg _ ih =>
    exact .whileLoop hcondition.typed.1 hcondition.typed.2 (ih (hf.grows hg))
  | tryCatch _ _ _ hg _ hh _ ihbody ihcatch ihfinally =>
    exact .tryCatch (ihbody hf) (ihcatch (hf.grows hg)) (ihfinally (hf.grows (hg.trans hh)))
  | labeled _ _ _ _ _ ih => exact .labeled (ih hf)
  | breakTo => exact .breakTo
  | continueTo => exact .continueTo
  | goto => exact .goto
  | returnNothing => exact .returnNothing
  | returnIgnored => exact .returnNothing
  | returnValue _ _ _ ht _ h =>
    refine .returnValue h.typed.1 fun u hu => ?_
    obtain rfl := ht.eq hf hu
    exact h.typed.2
  | refused => exact .error

/-! ### Global scopes -/

theorem BindsBody.typed (h : BindsBody p once F f method block trace)
    (hf : OwnerKnown f (.symbol method)) :
    ∀ s ∈ block.statements, s.Typed p F R (.symbol method) := by
  cases h with
  | script _ _ _ _ h => exact h.typed hR hf
  | body _ _ _ h => exact h.typed hR hf

omit hR in
theorem BindsBody.isMethod (h : BindsBody p once F f method block trace) :
    ∃ data, p.symbols.method? method = .ok (some data) := by
  cases h with
  | script _ hdata => exact ⟨_, hdata⟩
  | body hdata => exact ⟨_, hdata⟩

variable {diagnostics : DiagnosticQueue} {start : Findings}

omit hR in
/-- The signature of every method is published before code is bound. -/
theorem Settled.ownerKnown (formed : p.Formed) (h : Settled p diagnostics start) {data : MethodData}
    (hdata : p.symbols.method? method = .ok (some data)) : OwnerKnown start (.symbol method) := by
  obtain ⟨s, hs, hkind⟩ := Program.exists_of_method? hdata
  obtain ⟨q, hq, -⟩ := h.declared hs
  unfold DeclaredIn at hq
  rw [hkind, (formed.table.entry hs).id_eq] at hq
  exact hq.imp fun _ hk => hk.1

theorem BoundAfter.typed (formed : p.Formed)
    {settled : DiagnosticQueue} (hstart : Settled p settled start)
    (h : BoundAfter p once start F diagnostics (.body method block)) :
    ∀ s ∈ block.statements, s.Typed p F R (.symbol method) := by
  obtain ⟨f, trace, hf, -, hbody⟩ := h
  obtain ⟨data, hdata⟩ := BindsBody.isMethod hbody
  exact BindsBody.typed hR hbody ((hstart.ownerKnown formed hdata).grows hf)

end code

namespace Compilation

theorem Explained.wellTyped {c : Compilation} (formed : c.program.Formed) {scope : GlobalScope}
    (h : c.Explained scope F) {R : Local → Expr → Prop}
    (hR : ∀ {target e}, (EntryIsScript c.program → Local.StartsTyped F target e) → R target e) :
    scope.WellTyped c.program F R := by
  obtain ⟨start, -, hstart, hparts⟩ := h.code
  refine ⟨fun entry hentry => (hparts.bodies entry hentry).typed hR formed hstart, ?_, ?_⟩
  · intro entry hentry
    obtain ⟨f, trace, -, -, chain, node, known, -, hknown, hvalue⟩ := hparts.initializers entry hentry
    refine ⟨hvalue.typed.1, fun other hother => ?_⟩
    obtain rfl := Option.mem_unique hknown hother
    exact hvalue.typed.2
  · intro s hs
    rcases hparts.statements with hnone | ⟨method, block, hmethod, hblock, hbody⟩
    · simp [show scope.statements = [] from hnone] at hs
    · exact ⟨method, hmethod, hbody.typed hR formed hstart s (by rw [hblock]; exact hs)⟩

/-- Every piece of code in the global scope of an accepted tree obeys the typing rules, at every
depth and whatever the options.  If no other method stands in place of the global statements, then
every local also has the type of the value that it starts with. -/
theorem bound_code_wellTyped {d : Document} {options : Options} {c : Compilation}
    {scope : GlobalScope} {F : Findings} (h : Compiles d options c scope F) :
    scope.WellTyped c.program F (fun _ _ => True) ∧
      (EntryIsScript c.program → scope.WellTyped c.program F (Local.StartsTyped F)) :=
  ⟨h.explained.wellTyped h.formed fun _ => trivial,
    fun hentry => h.explained.wellTyped h.formed fun hstarts => hstarts hentry⟩

/-- `any x = 1;`, where the number is boxed. -/
def boxingDocument : Document := ⟨"boxing", [
  .typeName "any" [] false, .literal (.int 1), .localDeclaration "x" (some 0) false (some 1),
  .globalStatement 2, .compilationUnit [3]]⟩

set_option maxRecDepth 20000 in
theorem bound_code_wellTyped_boxing : ∃ c scope F, Compiles boxingDocument {} c scope F ∧
    EntryIsScript c.program ∧ scope.WellTyped c.program F (Local.StartsTyped F) := by
  obtain ⟨c, scope, F, h, -⟩ := exists_compiles
    (show observe (inScope? fun _ => ()) boxingDocument {} = some (some ()) by cbv)
  have hlook := h.look_eq (fun c => (c.program.symbols.entry?,
      c.program.symbols.method? 1 |>.toOption.join.map (·.isEntry)))
    (show observe _ boxingDocument {} = some (some 1, some true) by decide +kernel)
  obtain ⟨hentry, hmethod⟩ := Prod.mk.inj hlook
  have hscript : EntryIsScript c.program := by
    intro entry data hfound hdata
    obtain rfl := Option.mem_unique hentry hfound
    simpa [hdata, Except.toOption] using hmethod
  exact ⟨c, scope, F, h, hscript, (bound_code_wellTyped h).2 hscript⟩

end Compilation
end Bindery
