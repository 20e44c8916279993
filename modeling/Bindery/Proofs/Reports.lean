import Bindery.Proofs.CodeLogic
import Bindery.Proofs.OptionFlags

/-! # What is reported

`Says p owed m Q` says what a computation of binding reports.  From any state whose findings are in
order (`Tidy`), if `m` ends,

* its value satisfies `Q`, and the findings are in order again;
* it adds the diagnostics that are owed, and of others only such that may occur anywhere
  (`Message.MayOccur`).

Messages about jumps may not: they are owed by single statements, and everything else is `Quiet`.
Messages about access and about low-level code only occur where the options leave these checks on.

The findings are in order if every published diagnostic may occur, no variable is of type `void`,
and every default value is a value.  The lemmas follow the shape of `do` blocks. -/

namespace Bindery

/-! ### Messages -/

/-- Messages that may be reported about any piece of code. -/
def Message.MayOccur (p : Program) : Message → Prop
  | .returnInFinally | .jumpOutsideLoop | .undefinedLabel => False
  | .inaccessible => p.flags.ignoresAccess = false
  | .lowLevelRequired => p.flags.lowLevel = false
  | _ => True

/-- The diagnostics that are owed are there, and no others but such that may occur anywhere. -/
structure Tells (p : Program) (owed : Diagnostic → Prop) (said : List Diagnostic) : Prop where
  complete : ∀ d, owed d → d ∈ said
  only : ∀ d ∈ said, owed d ∨ d.message.MayOccur p

namespace Tells

variable {p : Program} {owed owed' : Diagnostic → Prop} {said said' : List Diagnostic}

theorem nil : Tells p (fun _ => False) [] := ⟨by simp, by simp⟩

theorem append (h : Tells p owed said) (h' : Tells p owed' said') :
    Tells p (fun d => owed d ∨ owed' d) (said ++ said') := by
  refine ⟨fun d hd => ?_, fun d hd => ?_⟩
  · rcases hd with hd | hd
    · exact List.mem_append_left _ (h.complete d hd)
    · exact List.mem_append_right _ (h'.complete d hd)
  · rcases List.mem_append.1 hd with hd | hd
    · exact (h.only d hd).imp_left .inl
    · exact (h'.only d hd).imp_left .inr

theorem owes (h : Tells p owed said) (howed : ∀ d, owed d ↔ owed' d) : Tells p owed' said :=
  ⟨fun d hd => h.complete d ((howed d).2 hd), fun d hd => (h.only d hd).imp_left (howed d).1⟩

theorem mayOccur (h : Tells p (fun _ => False) said) : ∀ d ∈ said, d.message.MayOccur p :=
  fun d hd => (h.only d hd).resolve_left id

end Tells

/-! ### Findings in order -/

/-- The diagnostics that come with a result may occur anywhere. -/
def Evaluated.Tame {α : Type} (p : Program) (e : Evaluated α) : Prop :=
  ∀ d ∈ e.diagnostics.items, d.message.MayOccur p

structure Tidy (p : Program) (f : Findings) : Prop where
  regions : p.CacheCarries f.regions
  constants : ∀ {field : SymbolId} {known : Evaluated FieldConstant},
    f.constants.get? field = some known → known.Tame p
  fieldTypes : ∀ {field : SymbolId} {known : Evaluated Ty}, f.fieldTypes.get? field = some known →
    known.value.isVoid = false ∧ known.Tame p
  signatures : ∀ {method : SymbolId} {known : Evaluated Signature},
    f.signatures.get? method = some known → known.value.Proper ∧ known.Tame p
  defaults : ∀ {parameter : SymbolId} {known : Evaluated (Option Expr)},
    f.defaults.get? parameter = some known → (∀ e ∈ known.value, e.IsValue) ∧ known.Tame p
  localTypes : ∀ {key : LocalKey} {t : Ty}, f.localTypes.get? key = some t → t.isVoid = false
  functionSignatures : ∀ {key : LocalKey} {signature : Signature},
    f.functionSignatures.get? key = some signature → signature.Proper
  functionDefaults : ∀ {key : LocalKey} {values : List (Option Expr)},
    f.functionDefaults.get? key = some values → ∀ e, some e ∈ values → e.IsValue

namespace Tidy

variable {p : Program} {f : Findings}

theorem empty : Tidy p {} where
  regions := Program.cacheCarries_empty
  constants h := by simp at h
  fieldTypes h := by simp at h
  signatures h := by simp at h
  defaults h := by simp at h
  localTypes h := by simp at h
  functionSignatures h := by simp at h
  functionDefaults h := by simp at h

theorem publishLocalType (h : Tidy p f) (key : LocalKey) {t : Ty} (ht : t.isVoid = false) :
    Tidy p { f with localTypes := f.localTypes.publish key t } :=
  { h with localTypes := fun hget =>
      (Registry.of_get?_publish hget).elim h.localTypes fun hnew => hnew.2 ▸ ht }

theorem publishLocalConstant (h : Tidy p f) (key : LocalKey) (c : Option Constant) :
    Tidy p { f with localConstants := f.localConstants.publish key c } := { h with }

theorem publishFunctionDefaults (h : Tidy p f) (key : LocalKey) {values : List (Option Expr)}
    (hvalues : ∀ e, some e ∈ values → e.IsValue) :
    Tidy p { f with functionDefaults := f.functionDefaults.publish key values } :=
  { h with functionDefaults := fun hget =>
      (Registry.of_get?_publish hget).elim h.functionDefaults fun hnew => hnew.2 ▸ hvalues }

/-- The types of parameters that are published with a signature. -/
theorem foldl_publish {pairs : List (Local × Ty)} {types : Registry LocalKey Ty}
    (htypes : ∀ {key : LocalKey} {t : Ty}, types.get? key = some t → t.isVoid = false)
    (hpairs : ∀ pair ∈ pairs, pair.2.isVoid = false) :
    ∀ {key : LocalKey} {t : Ty}, (pairs.foldl (fun types (parameter, type) =>
      types.publish parameter.key type) types).get? key = some t → t.isVoid = false := by
  induction pairs generalizing types with
  | nil => exact htypes
  | cons pair rest ih =>
    refine ih (fun hget => ?_) fun pair hpair => hpairs pair (List.mem_cons_of_mem _ hpair)
    rcases Registry.of_get?_publish hget with hold | ⟨-, rfl⟩
    · exact htypes hold
    · exact hpairs pair List.mem_cons_self

theorem publishFunctionSignature (h : Tidy p f) (function : LocalFunction) {signature : Signature}
    (hsignature : signature.Proper) : Tidy p (f.publishFunctionSignature function signature) := by
  have hsignatures : ∀ {key : LocalKey} {known : Signature},
      (f.functionSignatures.publish function.key signature).get? key = some known → known.Proper := by
    intro key known hget
    rcases Registry.of_get?_publish hget with hold | ⟨-, rfl⟩
    · exact h.functionSignatures hold
    · exact hsignature
  refine { h with functionSignatures := hsignatures, localTypes := foldl_publish h.localTypes ?_ }
  intro pair hpair
  have hmem := (List.of_mem_zip hpair).2
  cases hget : (f.functionSignatures.publish function.key signature).get? function.key with
  | none =>
    rw [hget] at hmem
    exact hsignature _ hmem
  | some known =>
    rw [hget] at hmem
    exact hsignatures hget _ hmem

end Tidy

/-! ### Computations -/

variable {α β : Type}

/-- What a computation reports, wherever the findings are in order. -/
def Says (p : Program) (owed : Diagnostic → Prop) (m : BindM α) (Q : α → Prop) : Prop :=
  ∀ s a s', Tidy p s.findings → m s = .ok a s' → Tidy p s'.findings ∧ Q a ∧
    ∃ said, s'.pass.diagnostics.items = s.pass.diagnostics.items ++ said ∧ Tells p owed said

/-- Nothing is owed. -/
abbrev Quiet (p : Program) (m : BindM α) (Q : α → Prop) : Prop := Says p (fun _ => False) m Q

namespace Says

variable {p : Program} {owed owed' : Diagnostic → Prop} {m : BindM α} {k : α → BindM β}
  {Q R : α → Prop} {T : β → Prop}

theorem pure {a : α} (h : Q a) : Quiet p (Pure.pure a) Q := by
  intro s b s' hs hrun
  obtain ⟨rfl, rfl⟩ := EStateM.Result.ok.inj hrun
  exact ⟨hs, h, [], by simp, .nil⟩

theorem of_throw {fault : Fault} : Says p owed (throw fault : BindM α) Q :=
  fun _ _ _ _ hrun => by cases hrun

/-- What is owed by two steps, one after the other. -/
theorem bind_both (hm : Says p owed m R) (hk : ∀ a, R a → Says p owed' (k a) T) :
    Says p (fun d => owed d ∨ owed' d) (m >>= k) T := by
  intro s b s' hs hrun
  obtain ⟨a, s₁, ha, hrun⟩ := exists_of_run_bind hrun
  obtain ⟨hs₁, hR, said, hsaid, htells⟩ := hm s a s₁ hs ha
  obtain ⟨hs', hT, said', hsaid', htells'⟩ := hk a hR s₁ b s' hs₁ hrun
  refine ⟨hs', hT, said ++ said', ?_, htells.append htells'⟩
  rw [hsaid', hsaid, List.append_assoc]

theorem owes (hm : Says p owed m Q) (h : ∀ d, owed d ↔ owed' d) : Says p owed' m Q := by
  intro s a s' hs hrun
  obtain ⟨hs', hQ, said, hsaid, htells⟩ := hm s a s' hs hrun
  exact ⟨hs', hQ, said, hsaid, htells.owes h⟩

theorem imp (hm : Says p owed m R) (h : ∀ a, R a → Q a) : Says p owed m Q := by
  intro s a s' hs hrun
  obtain ⟨hs', hR, hrest⟩ := hm s a s' hs hrun
  exact ⟨hs', h a hR, hrest⟩

theorem bind (hm : Quiet p m R) (hk : ∀ a, R a → Says p owed (k a) T) :
    Says p owed (m >>= k) T :=
  (bind_both hm hk).owes fun _ => or_iff_right id

theorem bind_quiet (hm : Says p owed m R) (hk : ∀ a, R a → Quiet p (k a) T) :
    Says p owed (m >>= k) T :=
  (bind_both hm hk).owes fun _ => or_iff_left id

theorem map {f : α → β} (hm : Says p owed m fun a => T (f a)) : Says p owed (f <$> m) T := by
  rw [← bind_pure_comp]
  exact bind_quiet hm fun _ ha => pure ha

theorem bind_lift {x : Except Fault α} (hk : ∀ a, x = .ok a → Says p owed (k a) T) :
    Says p owed (liftM x >>= k) T := by
  cases x with
  | ok a => exact hk a rfl
  | error fault => exact of_throw

/-- A step that is made under a condition. -/
theorem may_bind {c : Prop} [Decidable c] {m : BindM PUnit} {k : PUnit → BindM β}
    (hm : c → Quiet p m fun _ => True) (hk : Says p owed (k ⟨⟩) T) :
    Says p owed (if c then m >>= k else k ⟨⟩) T := by
  split
  · next h => exact bind (hm h) fun _ _ => hk
  · exact hk

/-! ### The state -/

theorem bind_findings {k : Findings → BindM β} (h : ∀ f, Tidy p f → Says p owed (k f) T) :
    Says p owed (BindM.findings >>= k) T :=
  fun s b s' hs hrun => h s.findings hs s b s' hs hrun

theorem modifyFindings {u : Findings → Findings} (h : ∀ f, Tidy p f → Tidy p (u f)) :
    Quiet p (BindM.modifyFindings u) fun _ => True := by
  intro s a s' hs hrun
  obtain ⟨-, rfl⟩ := EStateM.Result.ok.inj hrun
  exact ⟨h _ hs, trivial, [], by simp, .nil⟩

theorem modifyPass {u : Pass → Pass} (h : ∀ pass, (u pass).diagnostics = pass.diagnostics) :
    Quiet p (modify fun s => { s with pass := u s.pass }) fun _ => True := by
  intro s a s' hs hrun
  obtain ⟨-, rfl⟩ := EStateM.Result.ok.inj hrun
  exact ⟨hs, trivial, [], by simp [h], .nil⟩

theorem sawBadConstant : Quiet p BindM.sawBadConstant fun _ => True := by
  intro s a s' hs hrun
  obtain ⟨-, rfl⟩ := EStateM.Result.ok.inj hrun
  exact ⟨hs, trivial, [], by simp, .nil⟩

theorem push {d : Diagnostic} (h : d.message.MayOccur p) : Quiet p (BindM.push d) fun _ => True := by
  intro s a s' hs hrun
  obtain ⟨-, rfl⟩ := EStateM.Result.ok.inj hrun
  exact ⟨hs, trivial, [d], rfl, by simp, by simpa using h⟩

theorem push_owed (d : Diagnostic) : Says p (· = d) (BindM.push d) fun _ => True := by
  intro s a s' hs hrun
  obtain ⟨-, rfl⟩ := EStateM.Result.ok.inj hrun
  exact ⟨hs, trivial, [d], rfl, by simp, by simp⟩

/-- The diagnostics of a pass of its own come with the value. -/
theorem isolated (hm : Says p owed m Q) :
    Quiet p (BindM.isolated m) fun e => Q e.value ∧ Tells p owed e.diagnostics.items := by
  intro s e s' hs hrun
  obtain ⟨outer, s₀, houter, hrun⟩ := exists_of_run_bind hrun
  obtain ⟨rfl, rfl⟩ := EStateM.Result.ok.inj houter
  obtain ⟨_, s₁, hreset, hrun⟩ := exists_of_run_bind hrun
  obtain ⟨-, rfl⟩ := EStateM.Result.ok.inj hreset
  obtain ⟨a, s₂, ha, hrun⟩ := exists_of_run_bind hrun
  obtain ⟨hs₂, hQ, said, hsaid, htells⟩ := hm { s with pass := {} } a s₂ hs ha
  obtain ⟨rfl, rfl⟩ := EStateM.Result.ok.inj hrun
  have hitems : s₂.pass.diagnostics.items = said := hsaid
  exact ⟨hs₂, ⟨hQ, hitems ▸ htells⟩, [], by simp, .nil⟩

theorem quietly (hm : Says p owed m Q) : Quiet p (BindM.quietly m) Q :=
  bind (isolated hm) fun _ h => pure h.1

theorem regions {m : RegionM α} (hm : p.Carrying m Q) : Quiet p (BindM.regions m) Q := by
  intro s a s' hs hrun
  unfold BindM.regions EStateM.run at hrun
  cases hm' : m s.findings.regions with
  | error fault cache =>
    rw [hm'] at hrun
    cases hrun
  | ok b cache =>
    rw [hm'] at hrun
    obtain ⟨rfl, rfl⟩ := EStateM.Result.ok.inj hrun
    obtain ⟨hQ, hcache⟩ := hm _ _ _ hs.regions hm'
    exact ⟨{ hs with regions := hcache }, hQ, [], by simp, .nil⟩

variable {list : List α} {f : α → BindM β}

/-! ### Lists -/

variable {owed : α → Diagnostic → Prop}

theorem mapM_owed (h : ∀ a ∈ list, Says p (owed a) (f a) fun _ => True) :
    Says p (fun d => ∃ a ∈ list, owed a d) (list.mapM f) fun _ => True := by
  induction list with
  | nil => exact (pure trivial).owes (by simp)
  | cons a rest ih =>
    rw [List.mapM_cons]
    have hrest := ih fun a ha => h a (List.mem_cons_of_mem _ ha)
    refine (bind_both (h a (by simp)) fun b _ => bind_quiet hrest fun results _ =>
      pure trivial).owes ?_
    simp

theorem optionMapM_owed {found : Option α} (h : ∀ a ∈ found, Says p (owed a) (f a) fun _ => True) :
    Says p (fun d => ∃ a ∈ found, owed a d) (found.mapM f) fun _ => True := by
  cases found with
  | none => exact (pure trivial).owes (by simp)
  | some a => exact (map (h a rfl)).owes (by simp)

end Says
end Bindery
